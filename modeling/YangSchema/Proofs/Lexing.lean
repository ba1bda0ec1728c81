import Mathlib.Data.List.Infix
import Mathlib.Data.List.TakeWhile
import YangSchema.Statement.Token

/-!
# Reading tokens is local

What is read as a token does not depend on where it stands, nor on what follows it; only an unquoted
text must be followed by a delimiter or by the end, or else it would go on
(`Token.exists_nextToken?_local`). Trivia in front of a token make no difference
(`Token.nextToken?_trivia`).

`Token.Reads cs ts` says that the characters `cs` are divided into the tokens `ts`, wherever they
stand. This is what `Token.scan` finds out (`Token.reads_iff_scan`).
-/

namespace YangSchema

namespace Token

/-! ## Trivia -/

/-- A block comment, which ends with the first `*/` behind its opening. -/
def IsBlockComment (cs : List Char) : Prop :=
  ∃ body, ¬ ['*', '/'] <:+: body ∧ cs = '/' :: '*' :: (body ++ ['*', '/'])

/-- A line comment, with the newline that ends it. -/
def IsLineComment (cs : List Char) : Prop :=
  ∃ body, '\n' ∉ body ∧ cs = '/' :: '/' :: (body ++ ['\n'])

/-- Blanks and comments. -/
inductive IsTrivia : List Char → Prop where
  | nil : IsTrivia []
  | blank {c : Char} {cs : List Char} : Text.isBlank c = true → IsTrivia cs → IsTrivia (c :: cs)
  | block {c cs : List Char} : IsBlockComment c → IsTrivia cs → IsTrivia (c ++ cs)
  | line {c cs : List Char} : IsLineComment c → IsTrivia cs → IsTrivia (c ++ cs)

/-- Whether a token starts here: neither trivia do, nor is it the end. -/
def StartsToken : List Char → Prop
  | [] => False
  | c :: cs => Text.isBlank c = false ∧ (c = '/' → cs.head? ≠ some '/' ∧ cs.head? ≠ some '*')

/-- What opens no comment is passed over if it is a blank. -/
theorem skipTrivia_gap_cons {p : Position} {c : Char} {cs : List Char}
    (h : c = '/' → cs.head? ≠ some '/' ∧ cs.head? ≠ some '*') :
    skipTrivia .gap p (c :: cs)
      = if Text.isBlank c then skipTrivia .gap (p.step c) cs else .ok ⟨p, c :: cs⟩ := by
  generalize hm : Trivia.gap = m
  generalize htext : c :: cs = text
  fun_cases skipTrivia m p text with
  | case1 => cases htext
  | case2 =>
    cases htext
    exact absurd rfl (h rfl).1
  | case3 =>
    cases htext
    exact absurd rfl (h rfl).2
  | case4 _ _ _ _ _ hblank =>
    cases htext
    rw [if_pos hblank]
  | case5 _ _ _ _ _ hblank =>
    cases htext
    rw [if_neg hblank]
  | case6 | case7 | case8 | case9 => cases hm

theorem skipTrivia_line_cons {p : Position} {c : Char} {cs : List Char} :
    skipTrivia .line p (c :: cs)
      = skipTrivia (if c = '\n' then .gap else .line) (p.step c) cs := rfl

theorem skipTrivia_block_cons {start p : Position} {previous c : Char} {cs : List Char} :
    skipTrivia (.block start previous) p (c :: cs)
      = skipTrivia (if c = '/' ∧ previous = '*' then .gap else .block start c) (p.step c) cs := rfl

theorem skipTrivia_blank {p : Position} {c : Char} {cs : List Char} (hc : Text.isBlank c = true) :
    skipTrivia .gap p (c :: cs) = skipTrivia .gap (p.step c) cs := by
  rw [skipTrivia_gap_cons, if_pos hc]
  rintro rfl
  exact absurd hc (by decide)

theorem skipTrivia_line {p : Position} {body cs : List Char} (h : '\n' ∉ body) :
    skipTrivia .line p (body ++ '\n' :: cs) = skipTrivia .gap (p.advance (body ++ ['\n'])) cs := by
  induction body generalizing p with
  | nil => rfl
  | cons c body ih =>
    simp only [List.mem_cons, not_or] at h
    simp only [List.cons_append, skipTrivia_line_cons, if_neg (Ne.symm h.1), Position.advance_cons]
    exact ih h.2

/-- A comment ends where its characters say so; the character in front of them counts too. -/
theorem skipTrivia_block {start p : Position} {previous : Char} {body cs : List Char}
    (h : ¬ ['*', '/'] <:+: previous :: body) :
    skipTrivia (.block start previous) p (body ++ '*' :: '/' :: cs)
      = skipTrivia .gap (p.advance (body ++ ['*', '/'])) cs := by
  induction body generalizing p previous with
  | nil => simp [skipTrivia_block_cons]
  | cons c body ih =>
    have hopen : ¬ (c = '/' ∧ previous = '*') := by
      rintro ⟨rfl, rfl⟩
      exact h ⟨[], body, rfl⟩
    simp only [List.cons_append, skipTrivia_block_cons, if_neg hopen, Position.advance_cons]
    apply ih
    intro hinfix
    exact h (List.infix_cons hinfix)

theorem IsBlockComment.skipTrivia {p : Position} {c cs : List Char} (h : IsBlockComment c) :
    skipTrivia .gap p (c ++ cs) = skipTrivia .gap (p.advance c) cs := by
  obtain ⟨body, hbody, rfl⟩ := h
  have hfirst : ¬ ['*', '/'] <:+: '\x00' :: body := by
    rw [List.infix_cons_iff]
    rintro (⟨t, ht⟩ | hinfix)
    · simp at ht
    · exact hbody hinfix
  simp only [List.cons_append, List.append_assoc, List.nil_append, Position.advance_cons]
  exact skipTrivia_block hfirst

theorem IsLineComment.skipTrivia {p : Position} {c cs : List Char} (h : IsLineComment c) :
    skipTrivia .gap p (c ++ cs) = skipTrivia .gap (p.advance c) cs := by
  obtain ⟨body, hbody, rfl⟩ := h
  simp only [List.cons_append, List.append_assoc, List.nil_append, Position.advance_cons]
  exact skipTrivia_line hbody

/-- Trivia are passed over. -/
theorem IsTrivia.skipTrivia {p : Position} {tr cs : List Char} (h : IsTrivia tr) :
    skipTrivia .gap p (tr ++ cs) = skipTrivia .gap (p.advance tr) cs := by
  induction h generalizing p with
  | nil => rfl
  | blank hc _ ih => rw [List.cons_append, skipTrivia_blank hc, ih, Position.advance_cons]
  | block hc _ ih => rw [List.append_assoc, hc.skipTrivia, ih, Position.advance_append]
  | line hc _ ih => rw [List.append_assoc, hc.skipTrivia, ih, Position.advance_append]

theorem StartsToken.skipTrivia {p : Position} {cs : List Char} (h : StartsToken cs) :
    skipTrivia .gap p cs = .ok ⟨p, cs⟩ := by
  cases cs with
  | nil => exact h.elim
  | cons c cs =>
    obtain ⟨hblank, hslash⟩ := h
    rw [skipTrivia_gap_cons hslash, hblank]
    rfl

/-- What a reader of trivia is in the middle of, with another place where it started. -/
def Trivia.startingAt (start : Position) : Trivia → Trivia
  | .block _ previous => .block start previous
  | m => m

theorem Trivia.startingAt_ite {P : Prop} [Decidable P] (start : Position) (m m' : Trivia) :
    (if P then m else m').startingAt start
      = if P then m.startingAt start else m'.startingAt start := apply_ite _ _ _ _

/-- Trivia that end in front of a token are passed over wherever they stand, and whatever comes
behind them. -/
theorem exists_skipped {m : Trivia} {p q : Position} {cs w : List Char}
    (h : skipTrivia m p cs = .ok ⟨q, w⟩) (hne : w ≠ []) :
    StartsToken w ∧ ∃ u, cs = u ++ w ∧ q = p.advance u ∧ ∀ start p' w',
      skipTrivia (m.startingAt start) p' (u ++ w') = skipTrivia .gap (p'.advance u) w' := by
  fun_induction skipTrivia m p cs with
  | case1 p =>
    cases h
    exact absurd rfl hne
  | case2 p cs ih =>
    obtain ⟨hstarts, u, rfl, rfl, hskip⟩ := ih h
    refine ⟨hstarts, '/' :: '/' :: u, rfl, rfl, fun start p' w' => ?_⟩
    exact hskip start _ w'
  | case3 p cs ih =>
    obtain ⟨hstarts, u, rfl, rfl, hskip⟩ := ih h
    refine ⟨hstarts, '/' :: '*' :: u, rfl, rfl, fun start p' w' => ?_⟩
    exact hskip p' _ w'
  | case4 p c cs hline hblock hblank ih =>
    obtain ⟨hstarts, u, rfl, rfl, hskip⟩ := ih h
    refine ⟨hstarts, c :: u, rfl, rfl, fun start p' w' => ?_⟩
    exact (skipTrivia_blank hblank).trans (hskip start _ w')
  | case5 p c cs hline hblock hblank =>
    cases h
    refine ⟨⟨by simpa using hblank, ?_⟩, [], rfl, rfl, fun start p' w' => rfl⟩
    rintro rfl
    constructor
    · intro hhead
      obtain ⟨tail, rfl⟩ := List.head?_eq_some_iff.1 hhead
      exact hline tail rfl rfl
    · intro hhead
      obtain ⟨tail, rfl⟩ := List.head?_eq_some_iff.1 hhead
      exact hblock tail rfl rfl
  | case6 p =>
    cases h
    exact absurd rfl hne
  | case7 p c cs ih =>
    obtain ⟨hstarts, u, rfl, rfl, hskip⟩ := ih h
    refine ⟨hstarts, c :: u, rfl, rfl, fun start p' w' => ?_⟩
    have hrest := hskip start (p'.step c) w'
    rw [Trivia.startingAt_ite] at hrest
    exact hrest
  | case8 start p => cases h
  | case9 start previous p c cs ih =>
    obtain ⟨hstarts, u, rfl, rfl, hskip⟩ := ih h
    refine ⟨hstarts, c :: u, rfl, rfl, fun start p' w' => ?_⟩
    have hrest := hskip start (p'.step c) w'
    rw [Trivia.startingAt_ite] at hrest
    exact hrest

/-- Trivia that end with the text do so wherever they stand. -/
theorem skipTrivia_end {m : Trivia} {p q : Position} {cs : List Char}
    (h : skipTrivia m p cs = .ok ⟨q, []⟩) (start p' : Position) :
    skipTrivia (m.startingAt start) p' cs = .ok ⟨p'.advance cs, []⟩ := by
  fun_induction skipTrivia m p cs generalizing p' start with
  | case1 p => rfl
  | case2 p cs ih => exact ih h start _
  | case3 p cs ih => exact ih h p' _
  | case4 p c cs hline hblock hblank ih => exact (skipTrivia_blank hblank).trans (ih h start _)
  | case5 p c cs hline hblock hblank => cases h
  | case6 p => rfl
  | case7 p c cs ih =>
    have hrest := ih h start (p'.step c)
    rw [Trivia.startingAt_ite] at hrest
    exact hrest
  | case8 start p => cases h
  | case9 start previous p c cs ih =>
    have hrest := ih h start (p'.step c)
    rw [Trivia.startingAt_ite] at hrest
    exact hrest

/-! ## One token -/

/-- Whether a token is an unquoted text. -/
def IsWord : Token → Prop
  | .text _ false => True
  | _ => False

/-- Whether an unquoted text ends here: a delimiter follows, or nothing. -/
def Delimited (cs : List Char) : Prop := ∀ c ∈ cs.head?, isDelimiter c = true

theorem doubleQuoted_local {acc v cs : List Char} {p : Position} {k : Cursor}
    (h : doubleQuoted acc p cs = some (v, k)) :
    ∃ u, cs = u ++ k.rest ∧ k.position = p.advance u ∧ ∀ p' w',
      doubleQuoted acc p' (u ++ w') = some (v, ⟨p'.advance u, w'⟩) := by
  fun_induction doubleQuoted acc p cs with
  | case1 acc p => cases h
  | case2 acc p => cases h
  | case3 acc p c cs acc' ih =>
    obtain ⟨u, rfl, hposition, hread⟩ := ih h
    exact ⟨'\\' :: c :: u, rfl, hposition, fun p' w' => hread _ w'⟩
  | case4 acc p cs hend hescape =>
    cases h
    exact ⟨['"'], rfl, rfl, fun p' w' => by simp [doubleQuoted]⟩
  | case5 acc p c cs hend hescape hquote ih =>
    obtain ⟨u, rfl, hposition, hread⟩ := ih h
    refine ⟨c :: u, rfl, hposition, fun p' w' => ?_⟩
    have hne : c ≠ '\\' := by
      rintro rfl
      cases hu : u ++ k.rest with
      | nil => exact hend rfl hu
      | cons d ds => exact hescape d ds rfl hu
    rw [List.cons_append, doubleQuoted, if_neg hquote]
    · exact hread _ w'
    · exact fun heq => absurd heq hne
    · exact fun _ _ heq => absurd heq hne

theorem singleQuoted_local {acc v cs : List Char} {p : Position} {k : Cursor}
    (h : singleQuoted acc p cs = some (v, k)) :
    ∃ u, cs = u ++ k.rest ∧ k.position = p.advance u ∧ ∀ p' w',
      singleQuoted acc p' (u ++ w') = some (v, ⟨p'.advance u, w'⟩) := by
  fun_induction singleQuoted acc p cs with
  | case1 acc p => cases h
  | case2 acc p cs =>
    cases h
    exact ⟨['\''], rfl, rfl, fun p' w' => by simp [singleQuoted]⟩
  | case3 acc p c cs hquote ih =>
    obtain ⟨u, rfl, hposition, hread⟩ := ih h
    refine ⟨c :: u, rfl, hposition, fun p' w' => ?_⟩
    rw [List.cons_append, singleQuoted, if_neg hquote]
    exact hread _ w'

/-- A word without delimiters ends where one follows. -/
theorem takeWhile_word {u w : List Char} (hu : ∀ c ∈ u, isDelimiter c = false) (hw : Delimited w) :
    (u ++ w).takeWhile (!isDelimiter ·) = u ∧ (u ++ w).dropWhile (!isDelimiter ·) = w := by
  have hall : ∀ c ∈ u, (!isDelimiter c) = true := by simpa using hu
  rw [List.takeWhile_append_of_pos hall, List.dropWhile_append_of_pos hall]
  cases w with
  | nil => simp
  | cons c w =>
    have hc : isDelimiter c = true := hw c rfl
    simp [hc]

theorem delimited_dropWhile (cs : List Char) : Delimited (cs.dropWhile (!isDelimiter ·)) := by
  intro c hc
  have hnot := List.head?_dropWhile_not (fun c => !isDelimiter c) cs
  rw [Option.mem_def.1 hc] at hnot
  simpa using hnot

/-- What is read as a token is so wherever it stands and whatever follows it; only an unquoted text
must come to an end. -/
theorem readToken_local {p : Position} {c : Char} {cs : List Char} {t : Token} {k : Cursor}
    (h : readToken p c cs = .ok (t, k)) :
    ∃ u, cs = u ++ k.rest ∧ k.position = p.advance (c :: u)
      ∧ (IsWord t → Delimited k.rest ∧ ∀ d ∈ u, isDelimiter d = false)
      ∧ ∀ p' w', (IsWord t → Delimited w') →
        readToken p' c (u ++ w') = .ok (t, ⟨p'.advance (c :: u), w'⟩) := by
  unfold readToken at h
  split at h
  · rename_i hc
    cases h
    exact ⟨[], rfl, rfl, False.elim, fun p' w' _ => by simp [readToken, hc]⟩
  split at h
  · rename_i hopen hc
    cases h
    exact ⟨[], rfl, rfl, False.elim, fun p' w' _ => by simp [readToken, hc]⟩
  split at h
  · rename_i hopen hclose hc
    cases h
    exact ⟨[], rfl, rfl, False.elim, fun p' w' _ => by simp [readToken, hc]⟩
  split at h
  · rename_i hopen hclose hsemicolon hc
    subst hc
    split at h
    · rename_i v k' hquoted
      cases h
      obtain ⟨u, hu, hposition, hread⟩ := doubleQuoted_local hquoted
      refine ⟨u, hu, hposition, False.elim, fun p' w' _ => ?_⟩
      simp [readToken, hread]
    · cases h
  split at h
  · rename_i hopen hclose hsemicolon hdouble hc
    subst hc
    split at h
    · rename_i v k' hquoted
      cases h
      obtain ⟨u, hu, hposition, hread⟩ := singleQuoted_local hquoted
      refine ⟨u, hu, hposition, False.elim, fun p' w' _ => ?_⟩
      simp [readToken, hread]
    · cases h
  · rename_i hopen hclose hsemicolon hdouble hsingle
    cases h
    have hword : ∀ d ∈ cs.takeWhile (!isDelimiter ·), isDelimiter d = false := by
      intro d hd
      simpa using List.mem_takeWhile_imp hd
    refine ⟨_, List.takeWhile_append_dropWhile.symm, rfl,
      fun _ => ⟨delimited_dropWhile cs, hword⟩, fun p' w' hw => ?_⟩
    obtain ⟨htake, hdrop⟩ := takeWhile_word hword (hw trivial)
    simp only [readToken, if_neg hopen, if_neg hclose, if_neg hsemicolon, if_neg hdouble,
      if_neg hsingle, htake, hdrop]

/-- A token starts with its first character, whatever follows it. -/
theorem StartsToken.of_readToken {p : Position} {c : Char} {u w w' : List Char} {t : Token}
    {k : Cursor} (hstarts : StartsToken (c :: (u ++ w)))
    (hread : readToken p c (u ++ w) = .ok (t, k)) (hw : IsWord t → Delimited w') :
    StartsToken (c :: (u ++ w')) := by
  refine ⟨hstarts.1, ?_⟩
  rintro rfl
  have hword : IsWord t := by
    simp only [readToken] at hread
    cases hread
    trivial
  cases u with
  | nil =>
    have hdelimited := hw hword
    constructor <;> intro hhead <;> exact absurd (hdelimited _ hhead) (by decide)
  | cons d u => exact hstarts.2 rfl

/-- What is read as the next token is so wherever it stands and whatever follows it; only an
unquoted text must come to an end. -/
theorem exists_nextToken?_local {k k' : Cursor} {t : Placed}
    (h : nextToken? k = .ok (.inr (t, k'))) :
    ∃ gap word, k.rest = gap ++ (word ++ k'.rest) ∧ t.position = k.position.advance gap
      ∧ k'.position = t.position.advance word ∧ (IsWord t.token → Delimited k'.rest)
      ∧ skipTrivia .gap k.position k.rest = .ok ⟨t.position, word ++ k'.rest⟩
      ∧ (∀ p w, skipTrivia .gap p (gap ++ w) = skipTrivia .gap (p.advance gap) w)
      ∧ ∀ p w, (IsWord t.token → Delimited w) → nextToken? ⟨p, gap ++ (word ++ w)⟩
        = .ok (.inr (⟨t.token, p.advance gap⟩, ⟨(p.advance gap).advance word, w⟩)) := by
  unfold nextToken? at h
  split at h
  · cases h
  · cases h
  · rename_i q c cs hskip
    split at h
    · cases h
    · rename_i t' k'' hread
      cases h
      obtain ⟨hstarts, gap, hgap, hq, hskips⟩ := exists_skipped hskip (List.cons_ne_nil c cs)
      obtain ⟨u, rfl, hposition, hword, hreads⟩ := readToken_local hread
      have hgaps : ∀ p w, skipTrivia .gap p (gap ++ w) = skipTrivia .gap (p.advance gap) w :=
        fun p w => hskips p p w
      refine ⟨gap, c :: u, hgap, hq, hposition, fun hw => (hword hw).1, hskip, hgaps, ?_⟩
      intro p w hw
      have hstarts' := hstarts.of_readToken hread hw
      simp only [nextToken?, hgaps, List.cons_append, hstarts'.skipTrivia, hreads _ w hw]

/-- Trivia in front of a token make no difference. -/
theorem nextToken?_trivia {p : Position} {gap cs : List Char}
    (h : ∀ p, skipTrivia .gap p (gap ++ cs) = skipTrivia .gap (p.advance gap) cs) :
    nextToken? ⟨p, gap ++ cs⟩ = nextToken? ⟨p.advance gap, cs⟩ := by
  unfold nextToken?
  dsimp only
  rw [h]

/-- A text that holds no more tokens does so wherever it stands. -/
theorem nextToken?_end {k : Cursor} {q : Position} (h : nextToken? k = .ok (.inl q))
    (p : Position) : nextToken? ⟨p, k.rest⟩ = .ok (.inl (p.advance k.rest)) := by
  unfold nextToken? at h
  split at h
  · cases h
  · rename_i q' hskip
    have hend : skipTrivia .gap p k.rest = .ok ⟨p.advance k.rest, []⟩ := skipTrivia_end hskip p p
    simp only [nextToken?, hend]
  · split at h <;> cases h

/-! ## All tokens -/

theorem scanFrom_of_token {k k' : Cursor} {t : Placed} (h : nextToken? k = .ok (.inr (t, k'))) :
    scanFrom k = (t :: (scanFrom k').1, (scanFrom k').2) := by
  rw [scanFrom]
  split <;> simp_all

theorem scanFrom_of_end {k : Cursor} {p : Position} (h : nextToken? k = .ok (.inl p)) :
    scanFrom k = ([], .ok p) := by
  rw [scanFrom]
  split <;> simp_all

theorem scanFrom_of_error {k : Cursor} {e : Failure} (h : nextToken? k = .error e) :
    scanFrom k = ([], .error e) := by
  rw [scanFrom]
  split <;> simp_all

theorem scanFrom_congr {k k' : Cursor} (h : nextToken? k = nextToken? k') :
    scanFrom k = scanFrom k' := by
  rcases hk : nextToken? k with e | p | ⟨t, k''⟩
  · rw [scanFrom_of_error hk, scanFrom_of_error (h ▸ hk)]
  · rw [scanFrom_of_end hk, scanFrom_of_end (h ▸ hk)]
  · have hk' : nextToken? k' = .ok (.inr (t, k'')) := h ▸ hk
    rw [scanFrom_of_token hk, scanFrom_of_token hk']

/-- The characters are divided into the tokens, wherever they stand. -/
def Reads (cs : List Char) (ts : List Token) : Prop :=
  ∀ p, ∃ placed q, scanFrom ⟨p, cs⟩ = (placed, .ok q) ∧ placed.map (·.token) = ts

namespace Reads

variable {cs gap word w : List Char} {ts us : List Token} {t : Token}

theorem of_end (h : ∀ p, ∃ q, nextToken? ⟨p, cs⟩ = .ok (.inl q)) : Reads cs [] := by
  intro p
  obtain ⟨q, hq⟩ := h p
  exact ⟨[], q, scanFrom_of_end hq, rfl⟩

theorem of_token (h : ∀ p, ∃ q q', nextToken? ⟨p, cs⟩ = .ok (.inr (⟨t, q⟩, ⟨q', w⟩)))
    (hw : Reads w ts) : Reads cs (t :: ts) := by
  intro p
  obtain ⟨q, q', hnext⟩ := h p
  obtain ⟨placed, q'', hscan, rfl⟩ := hw q'
  refine ⟨⟨t, q⟩ :: placed, q'', ?_, rfl⟩
  rw [scanFrom_of_token hnext, hscan]

/-- What has been divided into tokens once is divided into the same ones wherever it stands. -/
theorem of_scanFrom {k : Cursor} {placed : List Placed} {q : Position}
    (h : scanFrom k = (placed, .ok q)) : Reads k.rest (placed.map (·.token)) := by
  induction placed generalizing k with
  | nil =>
    rcases hk : nextToken? k with e | q' | ⟨t, k'⟩
    · rw [scanFrom_of_error hk] at h
      cases h
    · exact of_end fun p => ⟨_, nextToken?_end hk p⟩
    · rw [scanFrom_of_token hk] at h
      cases h
  | cons t placed ih =>
    rcases hk : nextToken? k with e | q' | ⟨t', k'⟩
    · rw [scanFrom_of_error hk] at h
      cases h
    · rw [scanFrom_of_end hk] at h
      cases h
    · rw [scanFrom_of_token hk] at h
      obtain ⟨hplaced, hending⟩ := Prod.mk.inj h
      obtain ⟨rfl, hrest⟩ := List.cons.inj hplaced
      have hreads : Reads k'.rest (placed.map (·.token)) := ih (Prod.ext hrest hending)
      obtain ⟨gap, word, hsplit, -, -, hword, -, -, hnext⟩ := exists_nextToken?_local hk
      rw [hsplit]
      exact of_token (fun p => ⟨_, _, hnext p _ hword⟩) hreads

/-- Trivia in front make no difference. -/
theorem gap_iff (h : ∀ p w, skipTrivia .gap p (gap ++ w) = skipTrivia .gap (p.advance gap) w) :
    Reads (gap ++ w) ts ↔ Reads w ts := by
  have hscan : ∀ p, scanFrom ⟨p, gap ++ w⟩ = scanFrom ⟨p.advance gap, w⟩ :=
    fun p => scanFrom_congr (nextToken?_trivia fun p => h p w)
  constructor
  · intro hreads
    obtain ⟨placed, q, hq, rfl⟩ := hreads .start
    rw [hscan] at hq
    exact of_scanFrom hq
  · intro hreads p
    rw [hscan]
    exact hreads _

/-- A text is divided in one way. -/
theorem unique (h : Reads cs ts) (h' : Reads cs us) : ts = us := by
  obtain ⟨placed, q, hscan, rfl⟩ := h .start
  obtain ⟨placed', q', hscan', rfl⟩ := h' .start
  rw [hscan] at hscan'
  rw [(Prod.mk.inj hscan').1]

end Reads

/-- The tokens into which a text is divided are those that are found in it from its start. -/
theorem reads_iff_scan {text : String} {ts : List Token} :
    Reads text.toList ts
      ↔ ∃ placed p, scan text = (placed, .ok p) ∧ placed.map (·.token) = ts := by
  constructor
  · intro h
    exact h .start
  · rintro ⟨placed, p, hscan, rfl⟩
    exact Reads.of_scanFrom hscan

end Token

end YangSchema
