import YangSchema.Proofs.Lexing
import YangSchema.Proofs.Plain
import YangSchema.Proofs.Positions
import YangSchema.Repository

/-!
# The grammar of statements

`Statement.Spelled` says which token sequences spell a statement: a keyword, an optional argument,
and then a semicolon or the substatements between braces. What spells the head of a statement is
left open there; `Statement.HeadTokens` is what the grammar says about it.

The reader decides this relation (`Statement.parse_iff_spelled`). `State.HasRead` says what a state
of the reader knows about the tokens taken in so far, and every token keeps it true
(`State.HasRead.push`); so only what the grammar allows is accepted. Conversely the tokens of a
statement take the reader from where a statement may start to where that statement has been added to
the innermost open one, whatever follows (`State.run_spelled`); so all that is accepted.
-/

namespace YangSchema

/-- What a head says, without its place. -/
def Head.content (h : Head) : Keyword × Option String := (h.keyword, h.argument)

namespace Statement

/-- What a statement says: its keyword, its argument and its substatements. -/
abbrev Content := Tree (Keyword × Option String)

theorem content_mk (h : Head) (children : List Statement) :
    content ⟨h, children⟩ = ⟨h.content, children.map content⟩ := by
  unfold content
  rw [Tree.map, Tree.mapForest_eq]
  rfl

/-! ## The grammar -/

/-- Quoted texts joined by `+`, and their values put together. -/
inductive QuotedTokens : String → List Token → Prop where
  | one (v : String) : QuotedTokens v [.text v true]
  | more {v : String} {ts : List Token} (w : String) :
    QuotedTokens v ts → QuotedTokens (v ++ w) (ts ++ [.text "+" false, .text w true])

/-- No argument, one unquoted text, or quoted texts. -/
inductive ArgumentTokens : Option String → List Token → Prop where
  | absent : ArgumentTokens none []
  | word (v : String) : ArgumentTokens (some v) [.text v false]
  | quoted {v : String} {ts : List Token} : QuotedTokens v ts → ArgumentTokens (some v) ts

/-- A keyword, which is an unquoted text, and an argument. -/
inductive HeadTokens : Keyword × Option String → List Token → Prop where
  | intro (word : String) {argument : Option String} {ts : List Token} :
    ArgumentTokens argument ts → HeadTokens (.ofString word, argument) (.text word false :: ts)

section

variable (H : Keyword × Option String → List Token → Prop)

mutual

/-- The tokens of a statement, where `H` says what the tokens of a head are. -/
inductive Spelled : Content → List Token → Prop where
  | simple {head : Keyword × Option String} {ts : List Token} :
    H head ts → Spelled ⟨head, []⟩ (ts ++ [.semicolon])
  | block {head : Keyword × Option String} {children : List Content} {ts us : List Token} :
    H head ts → AllSpelled children us →
      Spelled ⟨head, children⟩ (ts ++ .opening :: (us ++ [.closing]))

/-- The tokens of statements, one behind the other. -/
inductive AllSpelled : List Content → List Token → Prop where
  | nil : AllSpelled [] []
  | cons {c : Content} {cs : List Content} {ts us : List Token} :
    Spelled c ts → AllSpelled cs us → AllSpelled (c :: cs) (ts ++ us)

end

end

section

variable {H H' : Keyword × Option String → List Token → Prop}

mutual

/-- The tokens of heads may be told in another way. -/
theorem Spelled.mono : ∀ {c : Content} {ts : List Token}, Spelled H c ts →
    (∀ head ∈ c.preorder, ∀ us, H head us → H' head us) → Spelled H' c ts
  | _, _, .simple hhead, h => .simple (h _ (by simp [Tree.preorder]) _ hhead)
  | _, _, .block hhead hchildren, h => by
    simp only [Tree.preorder, List.forall_mem_cons] at h
    exact .block (h.1 _ hhead) (hchildren.mono h.2)

theorem AllSpelled.mono : ∀ {cs : List Content} {ts : List Token}, AllSpelled H cs ts →
    (∀ head ∈ Tree.forestPreorder cs, ∀ us, H head us → H' head us) → AllSpelled H' cs ts
  | _, _, .nil, _ => .nil
  | _, _, .cons hfirst hrest, h => by
    simp only [Tree.forestPreorder, List.forall_mem_append] at h
    exact .cons (hfirst.mono h.1) (hrest.mono h.2)

end

mutual

/-- What holds of the tokens of heads, of braces and of semicolons holds of all tokens. -/
theorem Spelled.forall_token {P : Token → Prop} (hhead : ∀ head us, H head us → ∀ t ∈ us, P t)
    (hsemicolon : P .semicolon) (hopening : P .opening) (hclosing : P .closing) :
    ∀ {c : Content} {ts : List Token}, Spelled H c ts → ∀ t ∈ ts, P t
  | _, _, .simple h => by
    rw [List.forall_mem_append, List.forall_mem_singleton]
    exact ⟨hhead _ _ h, hsemicolon⟩
  | _, _, .block h hchildren => by
    rw [List.forall_mem_append, List.forall_mem_cons, List.forall_mem_append,
      List.forall_mem_singleton]
    exact ⟨hhead _ _ h, hopening,
      hchildren.forall_token hhead hsemicolon hopening hclosing, hclosing⟩

theorem AllSpelled.forall_token {P : Token → Prop}
    (hhead : ∀ head us, H head us → ∀ t ∈ us, P t) (hsemicolon : P .semicolon)
    (hopening : P .opening) (hclosing : P .closing) :
    ∀ {cs : List Content} {ts : List Token}, AllSpelled H cs ts → ∀ t ∈ ts, P t
  | _, _, .nil => List.forall_mem_nil P
  | _, _, .cons hfirst hrest => by
    rw [List.forall_mem_append]
    exact ⟨hfirst.forall_token hhead hsemicolon hopening hclosing,
      hrest.forall_token hhead hsemicolon hopening hclosing⟩

end

theorem AllSpelled.append {as bs : List Content} {ts us : List Token} (ha : AllSpelled H as ts)
    (hb : AllSpelled H bs us) : AllSpelled H (as ++ bs) (ts ++ us) := by
  induction as generalizing ts with
  | nil =>
    cases ha
    exact hb
  | cons a as ih =>
    cases ha with
    | cons hfirst hrest =>
      rw [List.cons_append, List.append_assoc]
      exact .cons hfirst (ih hrest)

theorem AllSpelled.snoc {cs : List Content} {c : Content} {ts us : List Token}
    (hcs : AllSpelled H cs ts) (hc : Spelled H c us) : AllSpelled H (cs ++ [c]) (ts ++ us) := by
  have hlast : AllSpelled H [c] (us ++ []) := .cons hc .nil
  rw [List.append_nil] at hlast
  exact hcs.append hlast

end

/-! ## Only the grammar is accepted -/

namespace State

variable {origin : String} {above : List Open} {ts us : List Token} {t : Token.Placed}

/-- The tokens behind which these statements are open. -/
inductive OpenTokens : List Open → List Token → Prop where
  | nil : OpenTokens [] []
  | cons {o : Open} {above : List Open} {ts us vs : List Token} :
    OpenTokens above ts → HeadTokens o.head.content us →
      AllSpelled HeadTokens (o.earlier.reverse.map content) vs →
      OpenTokens (o :: above) (ts ++ (us ++ .opening :: vs))

/-- What a state knows about the tokens taken in so far. -/
inductive HasRead : State → List Token → Prop where
  | between {above : List Open} {ts : List Token} :
    OpenTokens above ts → HasRead (.between above) ts
  | named {head : Head} {word : String} {above : List Open} {ts : List Token} :
    OpenTokens above ts → head.content = (.ofString word, none) →
      HasRead (.named head above) (ts ++ [.text word false])
  | quotedArgument {head : Head} {word value : String} {above : List Open} {ts us : List Token} :
    OpenTokens above ts → head.keyword = .ofString word → QuotedTokens value us →
      HasRead (.quotedArgument head value above) (ts ++ .text word false :: us)
  | joining {head : Head} {word value : String} {plus : Position} {above : List Open}
      {ts us : List Token} :
    OpenTokens above ts → head.keyword = .ofString word → QuotedTokens value us →
      HasRead (.joining head value plus above) (ts ++ .text word false :: us ++ [.text "+" false])
  | argued {head : Head} {above : List Open} {ts us : List Token} :
    OpenTokens above ts → HeadTokens head.content us → HasRead (.argued head above) (ts ++ us)
  | complete {root : Statement} {ts : List Token} :
    Spelled HeadTokens root.content ts → HasRead (.complete root) ts

theorem HasRead.close {s : Statement} (habove : OpenTokens above ts)
    (hs : Spelled HeadTokens s.content us) : HasRead (close s above) (ts ++ us) := by
  cases habove with
  | nil => exact .complete hs
  | @cons o above ts hs' vs habove hhead hearlier =>
    have hchildren : AllSpelled HeadTokens ((s :: o.earlier).reverse.map content) (vs ++ us) := by
      rw [List.reverse_cons, List.map_append]
      exact hearlier.snoc hs
    have hread : HasRead (.between (⟨o.head, s :: o.earlier⟩ :: above)) _ :=
      .between (.cons habove hhead hchildren)
    simpa [State.close] using hread

/-- The end of a head keeps what is known. -/
theorem HasRead.endHead {head : Head} {s : State} (habove : OpenTokens above ts)
    (hhead : HeadTokens head.content us) (h : State.endHead origin head above t = .ok s) :
    HasRead s (ts ++ us ++ [t.token]) := by
  unfold State.endHead at h
  rw [List.append_assoc]
  split at h
  · rename_i htoken
    cases h
    rw [htoken]
    apply HasRead.close habove
    rw [content_mk]
    exact .simple hhead
  · rename_i htoken
    cases h
    rw [htoken]
    exact .between (.cons habove hhead .nil)
  · cases h

/-- A closing brace ends the innermost open statement. -/
theorem HasRead.closing {o : Open} (h : OpenTokens (o :: above) ts) :
    HasRead (State.close ⟨o.head, o.earlier.reverse⟩ above) (ts ++ [.closing]) := by
  cases h with
  | @cons _ _ ts us vs habove hhead hearlier =>
    have hs : Spelled HeadTokens (content ⟨o.head, o.earlier.reverse⟩)
        (us ++ .opening :: (vs ++ [.closing])) := by
      rw [content_mk]
      exact .block hhead hearlier
    simpa using HasRead.close habove hs

/-- Every token keeps what is known. -/
theorem HasRead.push {s s' : State} (hs : HasRead s ts) (h : State.push origin t s = .ok s') :
    HasRead s' (ts ++ [t.token]) := by
  cases hs with
  | between habove =>
    simp only [State.push] at h
    split at h
    · rename_i word htoken
      cases h
      rw [htoken]
      exact .named habove rfl
    · rename_i htoken
      cases h
      rw [htoken]
      exact .closing habove
    · cases h
  | @named head word above ts habove hhead =>
    obtain ⟨hkeyword, hargument⟩ := Prod.mk.inj hhead
    simp only [State.push] at h
    split at h
    · rename_i value htoken
      cases h
      rw [htoken, List.append_assoc]
      apply HasRead.argued habove
      unfold Head.content
      dsimp only
      rw [hkeyword]
      exact .intro word (.word value)
    · rename_i value htoken
      cases h
      rw [htoken, List.append_assoc]
      exact .quotedArgument habove hkeyword (.one value)
    · refine HasRead.endHead habove ?_ h
      rw [hhead]
      exact .intro word .absent
  | @quotedArgument head word value above ts us habove hkeyword hvalue =>
    simp only [State.push] at h
    split at h
    · rename_i htoken
      cases h
      rw [htoken]
      exact .joining habove hkeyword hvalue
    · refine HasRead.endHead habove ?_ h
      unfold Head.content
      dsimp only
      rw [hkeyword]
      exact .intro word (.quoted hvalue)
  | @joining head word value plus above ts us habove hkeyword hvalue =>
    simp only [State.push] at h
    split at h
    · rename_i more htoken
      cases h
      have hread := HasRead.quotedArgument habove hkeyword (hvalue.more more)
      rw [htoken]
      simpa using hread
    · cases h
  | argued habove hhead => exact .endHead habove hhead h
  | complete => cases h

/-- What has been accepted is a statement of the grammar, and the text ends without fault. -/
theorem HasRead.run {s : State} {ending : Token.Ending} {placed : List Token.Placed}
    {root : Statement} (hs : HasRead s ts) (h : State.run origin ending placed s = .ok root) :
    (∃ p, ending = .ok p)
      ∧ Spelled HeadTokens root.content (ts ++ placed.map (·.token)) := by
  induction placed generalizing s ts with
  | nil =>
    simp only [State.run] at h
    split at h
    · rename_i p
      cases hs with
      | complete hroot =>
        cases h
        rw [List.map_nil, List.append_nil]
        exact ⟨⟨p, rfl⟩, hroot⟩
      | @between above =>
        cases above <;> cases h
      | _ => cases h
    · cases h
  | cons t placed ih =>
    simp only [State.run] at h
    split at h
    · rename_i s' hpush
      have hrest := ih (hs.push hpush) h
      simpa using hrest
    · cases h

/-! ## All of the grammar is accepted -/

variable {ending : Token.Ending} {placed : List Token.Placed}

theorem run_of_push {s s' : State} (h : s.push origin t = .ok s') (rest : List Token.Placed) :
    run origin ending (t :: rest) s = run origin ending rest s' := by
  rw [run, h]

/-- Quoted texts behind a keyword are put together. -/
theorem run_quoted {head : Head} {value : String} (h : QuotedTokens value us)
    (hplaced : placed.map (·.token) = us) (rest : List Token.Placed) :
    run origin ending (placed ++ rest) (.named head above)
      = run origin ending rest (.quotedArgument head value above) := by
  induction h generalizing placed rest with
  | one v =>
    obtain ⟨t, rfl, ht⟩ := List.map_eq_singleton_iff.1 hplaced
    apply run_of_push
    simp only [push, ht]
  | @more v us w _ ih =>
    obtain ⟨first, last, rfl, hfirst, hlast⟩ := List.map_eq_append_iff.1 hplaced
    obtain ⟨plus, last, rfl, hplus, hlast⟩ := List.map_eq_cons_iff.1 hlast
    obtain ⟨t, rfl, ht⟩ := List.map_eq_singleton_iff.1 hlast
    have hjoining : push origin plus (.quotedArgument head v above)
        = .ok (.joining head v plus.position above) := by
      simp only [push, if_pos hplus]
    rw [List.append_assoc, ih hfirst, List.cons_append, run_of_push hjoining,
      List.singleton_append]
    apply run_of_push
    simp only [push, ht]

section

variable (origin above ending)

/-- Behind the tokens of a head, the reader expects the end of the head. -/
theorem run_head {head : Keyword × Option String} (h : HeadTokens head us)
    (hplaced : placed.map (·.token) = us) :
    ∃ (hd : Head) (s : State), hd.content = head
      ∧ (∀ rest, run origin ending (placed ++ rest) (.between above) = run origin ending rest s)
      ∧ ∀ t : Token.Placed, (∀ v q, t.token ≠ .text v q) →
        s.push origin t = endHead origin hd above t := by
  cases h with
  | @intro word argument us hargument =>
    obtain ⟨k, placed, rfl, hk, hplaced⟩ := List.map_eq_cons_iff.1 hplaced
    let hd : Head := ⟨.ofString word, none, .ofPosition origin k.position⟩
    have hnamed : ∀ rest, run origin ending (k :: placed ++ rest) (.between above)
        = run origin ending (placed ++ rest) (.named hd above) := by
      intro rest
      apply run_of_push
      simp only [push, hk]
      rfl
    cases hargument with
    | absent =>
      obtain rfl := List.map_eq_nil_iff.1 hplaced
      refine ⟨hd, .named hd above, rfl, hnamed, fun t ht => ?_⟩
      simp only [push]
      split
      · rename_i v htoken
        exact absurd htoken (ht v false)
      · rename_i v htoken
        exact absurd htoken (ht v true)
      · rfl
    | word v =>
      obtain ⟨t, rfl, ht⟩ := List.map_eq_singleton_iff.1 hplaced
      let hd' : Head := ⟨hd.keyword, some v, hd.location⟩
      refine ⟨hd', .argued hd' above, rfl, fun rest => ?_, fun t ht => rfl⟩
      rw [hnamed]
      apply run_of_push
      simp only [push, ht]
      rfl
    | @quoted v us hquoted =>
      let hd' : Head := ⟨hd.keyword, some v, hd.location⟩
      refine ⟨hd', .quotedArgument hd v above, rfl, fun rest => ?_, fun t ht => ?_⟩
      · rw [hnamed, run_quoted hquoted hplaced]
      · simp only [push, if_neg (ht _ _)]
        rfl

/-- Behind the tokens of a head and its end. -/
theorem run_endHead {head : Keyword × Option String} (h : HeadTokens head us)
    (hplaced : placed.map (·.token) = us) (ht : t.token = .semicolon ∨ t.token = .opening) :
    ∃ hd : Head, hd.content = head ∧ ∀ s, endHead origin hd above t = .ok s → ∀ rest,
      run origin ending (placed ++ t :: rest) (.between above) = run origin ending rest s := by
  obtain ⟨hd, s, hcontent, hrun, hpush⟩ := run_head origin above ending h hplaced
  refine ⟨hd, hcontent, fun s' hs' rest => ?_⟩
  rw [hrun]
  apply run_of_push
  rw [hpush, hs']
  intro v q heq
  rcases ht with ht | ht <;> rw [ht] at heq <;> cases heq

mutual

/-- The tokens of a statement add it to the innermost open one. -/
theorem run_spelled : ∀ {c : Content} {ts : List Token}, Spelled HeadTokens c ts →
    ∀ {placed : List Token.Placed}, placed.map (·.token) = ts → ∀ above : List Open,
    ∃ s : Statement, s.content = c ∧ ∀ rest,
      run origin ending (placed ++ rest) (.between above) = run origin ending rest (close s above)
  | _, _, .simple hhead, placed, hplaced, above => by
    obtain ⟨first, last, rfl, hfirst, hlast⟩ := List.map_eq_append_iff.1 hplaced
    obtain ⟨t, rfl, ht⟩ := List.map_eq_singleton_iff.1 hlast
    obtain ⟨hd, rfl, hrun⟩ := run_endHead origin above ending hhead hfirst (.inl ht)
    refine ⟨⟨hd, []⟩, content_mk hd [], fun rest => ?_⟩
    rw [List.append_assoc]
    apply hrun
    simp only [endHead, ht]
  | _, _, .block hhead hchildren, placed, hplaced, above => by
    obtain ⟨first, last, rfl, hfirst, hlast⟩ := List.map_eq_append_iff.1 hplaced
    obtain ⟨t, last, rfl, ht, hlast⟩ := List.map_eq_cons_iff.1 hlast
    obtain ⟨middle, last, rfl, hmiddle, hlast⟩ := List.map_eq_append_iff.1 hlast
    obtain ⟨t', rfl, ht'⟩ := List.map_eq_singleton_iff.1 hlast
    obtain ⟨hd, rfl, hrun⟩ := run_endHead origin above ending hhead hfirst (.inr ht)
    obtain ⟨children, rfl, hrest⟩ := run_allSpelled hchildren hmiddle ⟨hd, []⟩ above
    refine ⟨⟨hd, children⟩, content_mk hd children, fun rest => ?_⟩
    rw [List.append_assoc, List.cons_append, hrun (.between (⟨hd, []⟩ :: above)),
      List.append_assoc, hrest]
    · apply run_of_push
      simp only [push, ht', List.append_nil, List.reverse_reverse]
    · simp only [endHead, ht]

/-- The tokens of several statements add all of them. -/
theorem run_allSpelled : ∀ {cs : List Content} {ts : List Token}, AllSpelled HeadTokens cs ts →
    ∀ {placed : List Token.Placed}, placed.map (·.token) = ts → ∀ (o : Open) (above : List Open),
    ∃ ss : List Statement, ss.map content = cs ∧ ∀ rest,
      run origin ending (placed ++ rest) (.between (o :: above))
        = run origin ending rest (.between (⟨o.head, ss.reverse ++ o.earlier⟩ :: above))
  | _, _, .nil, placed, hplaced, o, above => by
    obtain rfl := List.map_eq_nil_iff.1 hplaced
    exact ⟨[], rfl, fun rest => rfl⟩
  | _, _, .cons hfirst hrest, placed, hplaced, o, above => by
    obtain ⟨first, last, rfl, hmap, hlast⟩ := List.map_eq_append_iff.1 hplaced
    obtain ⟨s, rfl, hs⟩ := run_spelled hfirst hmap (o :: above)
    obtain ⟨ss, rfl, hss⟩ := run_allSpelled hrest hlast ⟨o.head, s :: o.earlier⟩ above
    refine ⟨s :: ss, rfl, fun rest => ?_⟩
    rw [List.append_assoc, hs]
    simpa [close] using hss rest

end

/-- A statement alone is accepted. -/
theorem run_eq_ok {c : Content} (h : Spelled HeadTokens c ts)
    (hplaced : placed.map (·.token) = ts) (p : Position) :
    ∃ s : Statement, s.content = c ∧ run origin (.ok p) placed (.between []) = .ok s := by
  obtain ⟨s, hcontent, hrun⟩ := run_spelled origin (.ok p) h hplaced []
  have hend := hrun []
  rw [List.append_nil] at hend
  exact ⟨s, hcontent, hend⟩

end

end State

/-- Tokens spell at most one statement. -/
theorem Spelled.unique {c c' : Content} {ts : List Token} (h : Spelled HeadTokens c ts)
    (h' : Spelled HeadTokens c' ts) : c = c' := by
  let placed : List Token.Placed := ts.map fun t => ⟨t, .start⟩
  have hplaced : placed.map (·.token) = ts := by
    rw [List.map_map]
    exact List.map_id ts
  obtain ⟨s, rfl, hs⟩ := State.run_eq_ok "" h hplaced .start
  obtain ⟨s', rfl, hs'⟩ := State.run_eq_ok "" h' hplaced .start
  rw [hs] at hs'
  rw [Except.ok.inj hs']

/-- What the reader accepts is what is divided into the tokens of a statement. -/
theorem exists_parse_iff_reads {origin text : String} {c : Content} :
    (∃ s, parse origin text = .ok s ∧ s.content = c)
      ↔ ∃ ts, Token.Reads text.toList ts ∧ Spelled HeadTokens c ts := by
  constructor
  · rintro ⟨s, hparse, rfl⟩
    obtain ⟨⟨p, hending⟩, hspelled⟩ := State.HasRead.run (.between .nil) hparse
    exact ⟨_, Token.reads_iff_scan.2 ⟨_, p, Prod.ext rfl hending, rfl⟩, hspelled⟩
  · rintro ⟨ts, hreads, hspelled⟩
    obtain ⟨placed, p, hscan, hplaced⟩ := Token.reads_iff_scan.1 hreads
    obtain ⟨s, hcontent, hrun⟩ := State.run_eq_ok origin hspelled hplaced p
    refine ⟨s, ?_, hcontent⟩
    unfold parse
    rw [hscan]
    exact hrun

/-- **The reader accepts its grammar and nothing else.** It gives a tree exactly when the text is
divided into tokens without fault and these spell the tree; tokens spell at most one tree; and a
text that is not accepted is refused for its syntax. -/
theorem parse_iff_spelled (origin text : String) :
    (∀ c : Content, (∃ s, parse origin text = .ok s ∧ s.content = c)
      ↔ ∃ placed p, Token.scan text = (placed, .ok p)
        ∧ Spelled HeadTokens c (placed.map (·.token)))
    ∧ (∀ (c c' : Content) (ts : List Token),
      Spelled HeadTokens c ts → Spelled HeadTokens c' ts → c = c')
    ∧ ∀ e, Document.source ⟨origin, some text⟩ = .error e → e.kind = .syntaxError := by
  refine ⟨fun c => ?_, fun c c' ts h h' => h.unique h', fun e he => ?_⟩
  · rw [exists_parse_iff_reads]
    constructor
    · rintro ⟨ts, hreads, hspelled⟩
      obtain ⟨placed, p, hscan, rfl⟩ := Token.reads_iff_scan.1 hreads
      exact ⟨placed, p, hscan, hspelled⟩
    · rintro ⟨placed, p, hscan, hspelled⟩
      exact ⟨_, Token.reads_iff_scan.2 ⟨placed, p, hscan, rfl⟩, hspelled⟩
  · unfold Document.source at he
    dsimp only at he
    split at he
    · cases he
    · cases he
      rfl

theorem parse_iff_spelled_joined :
    (∃ s, parse "o" "a \"b\" + 'c' \x7b d; \x7d" = .ok s
      ∧ s.content = ⟨(⟨none, "a"⟩, some "bc"), [⟨(⟨none, "d"⟩, none), []⟩]⟩)
    ∧ ∃ e, Document.source ⟨"o", some "a"⟩ = .error e ∧ e.kind = .syntaxError := by
  constructor
  · have hscan : Token.scan "a \"b\" + 'c' \x7b d; \x7d" = ([
        ⟨.text "a" false, ⟨1, 1⟩⟩, ⟨.text "b" true, ⟨1, 3⟩⟩, ⟨.text "+" false, ⟨1, 7⟩⟩,
        ⟨.text "c" true, ⟨1, 9⟩⟩, ⟨.opening, ⟨1, 13⟩⟩, ⟨.text "d" false, ⟨1, 15⟩⟩,
        ⟨.semicolon, ⟨1, 16⟩⟩, ⟨.closing, ⟨1, 18⟩⟩], .ok ⟨1, 19⟩) := by
      decide +kernel
    apply ((parse_iff_spelled "o" _).1 _).2
    refine ⟨_, _, hscan, ?_⟩
    have hargument : QuotedTokens "bc" [.text "b" true, .text "+" false, .text "c" true] :=
      .more "c" (.one "b")
    have hroot : HeadTokens (⟨none, "a"⟩, some "bc") _ := .intro "a" (.quoted hargument)
    have hchild : HeadTokens (⟨none, "d"⟩, none) _ := .intro "d" .absent
    exact .block hroot (.cons (.simple hchild) .nil)
  · cases h : Document.source ⟨"o", some "a"⟩ with
    | ok s =>
      have herror : (Document.source ⟨"o", some "a"⟩).toBool = false := by decide +kernel
      rw [h] at herror
      cases herror
    | error e => exact ⟨e, rfl, (parse_iff_spelled "o" "a").2.2 e h⟩

end Statement

end YangSchema
