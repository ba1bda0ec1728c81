import YangSchema.Proofs.TokenGrammar

/-!
# Comments between tokens

A block comment put in front of a token or behind it leaves the statement as it was, so long as no
unquoted text ends there; with a blank in front of it, it may stand there too
(`Statement.parse_commented`). Directly behind an unquoted text the comment is read as part of that
text (`Statement.comment_in_word`).

What is read up to a place depends on what follows only through the unquoted text that may end there
(`Token.StopsAt.reads_iff`), and trivia in front of the rest make no difference.
-/

namespace YangSchema

namespace Token

variable {text : String} {t : Placed} {spot before behind : List Char}

/-- Where the reading of a text stops: at its start and behind each of its tokens. -/
inductive StopsAt (text : String) : Cursor → Prop where
  | start : StopsAt text ⟨.start, text.toList⟩
  | next {k k' : Cursor} {t : Placed} :
    StopsAt text k → nextToken? k = .ok (.inr (t, k')) → StopsAt text k'

/-- A token of a text, with what is left of the text where the token starts and where it ends. -/
def Occurs (text : String) (t : Placed) (before behind : List Char) : Prop :=
  ∃ k p, StopsAt text k ∧ skipTrivia .gap k.position k.rest = .ok ⟨t.position, before⟩
    ∧ nextToken? k = .ok (.inr (t, ⟨p, behind⟩))

/-- Whether an unquoted text ends where this is left of a text. -/
def FollowsWord (text : String) (spot : List Char) : Prop :=
  ∃ t before, IsWord t.token ∧ Occurs text t before spot

/-- The first token of what is read. -/
theorem Reads.token_iff {t : Token} {gap word w : List Char}
    (hnext : ∀ p w, (IsWord t → Delimited w) → nextToken? ⟨p, gap ++ (word ++ w)⟩
      = .ok (.inr (⟨t, p.advance gap⟩, ⟨(p.advance gap).advance word, w⟩)))
    (hw : IsWord t → Delimited w) {ts : List Token} :
    Reads (gap ++ (word ++ w)) ts ↔ ∃ us, ts = t :: us ∧ Reads w us := by
  constructor
  · intro h
    obtain ⟨placed, q, hscan, rfl⟩ := h .start
    rw [scanFrom_of_token (hnext .start w hw)] at hscan
    obtain ⟨rfl, hending⟩ := Prod.mk.inj hscan
    exact ⟨_, rfl, Reads.of_scanFrom (Prod.ext rfl hending)⟩
  · rintro ⟨us, rfl, hus⟩
    exact Reads.of_token (fun p => ⟨_, _, hnext p w hw⟩) hus

theorem FollowsWord.delimited (h : FollowsWord text spot) : Delimited spot := by
  obtain ⟨t, before, hword, k, p, -, -, hnext⟩ := h
  obtain ⟨_, _, -, -, -, hdelimited, -⟩ := exists_nextToken?_local hnext
  exact hdelimited hword

/-- Whether an unquoted text ends in front of `w` can be told from the first character of `w`. -/
theorem Delimited.of_append {u w w' : List Char} (h : Delimited (u ++ w)) (hu : u ≠ []) :
    Delimited (u ++ w') := by
  cases u with
  | nil => exact absurd rfl hu
  | cons c u => exact h

/-- What is read up to a place is read whatever follows, if that ends the unquoted text that may end
there. -/
theorem StopsAt.reads_iff {k : Cursor} (h : StopsAt text k) :
    ∃ front pre, text.toList = front ++ k.rest ∧ ∀ w, (FollowsWord text k.rest → Delimited w) →
      ∀ ts, Reads (front ++ w) ts ↔ ∃ us, ts = pre ++ us ∧ Reads w us := by
  induction h with
  | start => exact ⟨[], [], rfl, fun w _ ts => by simp⟩
  | @next k k' t hk hnext ih =>
    obtain ⟨front, pre, hfront, hreads⟩ := ih
    have hshorter := nextToken?_shorter hnext
    obtain ⟨gap, word, hrest, -, -, -, hskip, -, hlocal⟩ := exists_nextToken?_local hnext
    have hnonempty : gap ++ word ≠ [] := by
      intro hempty
      rw [← List.append_assoc, hempty, List.nil_append] at hrest
      rw [hrest] at hshorter
      exact Nat.lt_irrefl _ hshorter
    refine ⟨front ++ (gap ++ word), pre ++ [t.token], ?_, fun w hw ts => ?_⟩
    · rw [hfront, hrest]
      simp only [List.append_assoc]
    have hdelimited : FollowsWord text k.rest → Delimited (gap ++ (word ++ w)) := by
      intro hword
      have hd := hword.delimited
      rw [hrest, ← List.append_assoc] at hd
      rw [← List.append_assoc]
      exact hd.of_append hnonempty
    have hword : IsWord t.token → Delimited w := by
      intro ht
      exact hw ⟨t, word ++ k'.rest, ht, k, k'.position, hk, hskip, hnext⟩
    have hassoc : front ++ (gap ++ word) ++ w = front ++ (gap ++ (word ++ w)) := by
      simp only [List.append_assoc]
    rw [hassoc, hreads _ hdelimited]
    constructor
    · rintro ⟨us, rfl, hus⟩
      obtain ⟨vs, rfl, hvs⟩ := (Reads.token_iff hlocal hword).1 hus
      exact ⟨vs, by simp, hvs⟩
    · rintro ⟨vs, rfl, hvs⟩
      exact ⟨t.token :: vs, by simp, (Reads.token_iff hlocal hword).2 ⟨vs, rfl, hvs⟩⟩

/-- The places around a token are places where reading stops, but for trivia. -/
theorem Occurs.exists_stop (h : Occurs text t before behind)
    (hspot : spot = before ∨ spot = behind) :
    ∃ k gap, StopsAt text k ∧ k.rest = gap ++ spot
      ∧ ∀ p w, skipTrivia .gap p (gap ++ w) = skipTrivia .gap (p.advance gap) w := by
  obtain ⟨k, p, hk, hbefore, hnext⟩ := h
  rcases hspot with rfl | rfl
  · obtain ⟨gap, word, hrest, -, -, -, hskip, hgap, -⟩ := exists_nextToken?_local hnext
    rw [hskip] at hbefore
    obtain ⟨-, rfl⟩ := Cursor.mk.inj (Except.ok.inj hbefore)
    exact ⟨k, gap, hk, hrest, hgap⟩
  · exact ⟨⟨p, spot⟩, [], hk.next hnext, rfl, fun _ _ => rfl⟩

/-- Trivia next to a token leave the tokens as they are, if they do not continue an unquoted
text. -/
theorem Occurs.reads_insert (h : Occurs text t before behind)
    (hspot : spot = before ∨ spot = behind) {front x : List Char}
    (hfront : text.toList = front ++ spot) (hx : IsTrivia x)
    (hword : FollowsWord text spot → Delimited (x ++ spot)) {ts : List Token}
    (hreads : Reads text.toList ts) : Reads (front ++ (x ++ spot)) ts := by
  obtain ⟨k, gap, hk, hrest, hgap⟩ := h.exists_stop hspot
  obtain ⟨front', pre, hfront', hiff⟩ := hk.reads_iff
  obtain rfl : front = front' ++ gap := by
    rw [hfront', hrest, ← List.append_assoc] at hfront
    exact (List.append_cancel_right hfront).symm
  have hdelimited : FollowsWord text k.rest → Delimited (gap ++ (x ++ spot)) := by
    intro hfollows
    by_cases hempty : gap = []
    · subst hempty
      rw [hrest] at hfollows
      exact hword hfollows
    · have hd := hfollows.delimited
      rw [hrest] at hd
      exact hd.of_append hempty
  rw [hfront', hiff _ FollowsWord.delimited] at hreads
  obtain ⟨us, rfl, hus⟩ := hreads
  rw [List.append_assoc, hiff _ hdelimited]
  refine ⟨us, rfl, ?_⟩
  rw [hrest, Reads.gap_iff hgap] at hus
  rw [Reads.gap_iff hgap, Reads.gap_iff fun _ _ => hx.skipTrivia]
  exact hus

end Token

namespace Statement

/-- Trivia next to a token leave the statement as it is, if they do not continue an unquoted
text. -/
theorem parse_insert {origin text : String} {s : Statement} (hs : parse origin text = .ok s)
    {t : Token.Placed} {spot before behind front x : List Char}
    (ht : Token.Occurs text t before behind) (hspot : spot = before ∨ spot = behind)
    (hfront : text.toList = front ++ spot) (hx : Token.IsTrivia x)
    (hword : Token.FollowsWord text spot → Token.Delimited (x ++ spot)) :
    ∃ s', parse origin (String.ofList (front ++ (x ++ spot))) = .ok s'
      ∧ s'.content = s.content := by
  obtain ⟨ts, hreads, hspelled⟩ := exists_parse_iff_reads.1 ⟨s, hs, rfl⟩
  apply exists_parse_iff_reads.2
  refine ⟨ts, ?_, hspelled⟩
  rw [String.toList_ofList]
  exact ht.reads_insert hspot hfront hx hword hreads

/-- **Comments are trivia, except directly behind an unquoted text.** A block comment in front of a
token or behind it leaves the statement as it is, unless an unquoted text ends just there; a blank
and a block comment do so everywhere. -/
theorem parse_commented (origin text : String) {s : Statement} (hs : parse origin text = .ok s)
    {t : Token.Placed} {spot before behind front c : List Char}
    (ht : Token.Occurs text t before behind) (hspot : spot = before ∨ spot = behind)
    (hfront : text.toList = front ++ spot) (hc : Token.IsBlockComment c) :
    (¬ Token.FollowsWord text spot →
      ∃ s', parse origin (String.ofList (front ++ (c ++ spot))) = .ok s'
        ∧ s'.content = s.content)
    ∧ ∀ b, Text.isBlank b = true →
      ∃ s', parse origin (String.ofList (front ++ (b :: c ++ spot))) = .ok s'
        ∧ s'.content = s.content := by
  have hcomment : Token.IsTrivia c := by
    have h := Token.IsTrivia.block hc .nil
    rwa [List.append_nil] at h
  constructor
  · intro hword
    exact parse_insert hs ht hspot hfront hcomment fun h => absurd h hword
  · intro b hb
    apply parse_insert hs ht hspot hfront (.blank hb hcomment)
    intro _ d hd
    cases hd
    simp [Token.isDelimiter, hb]

theorem parse_commented_quoted :
    (∃ s, parse "o" "leaf \"x\";" = .ok s ∧ s.argument = some "x")
    ∧ Token.Occurs "leaf \"x\";" ⟨.text "x" true, ⟨1, 6⟩⟩ ['"', 'x', '"', ';'] [';']
    ∧ ¬ Token.FollowsWord "leaf \"x\";" [';']
    ∧ ∃ s', parse "o" (String.ofList ("leaf \"x\"".toList ++ (['/', '*', '*', '/'] ++ [';'])))
        = .ok s' ∧ s'.content = ⟨(⟨none, "leaf"⟩, some "x"), []⟩ := by
  have hfirst : Token.nextToken? ⟨.start, "leaf \"x\";".toList⟩
      = .ok (.inr (⟨.text "leaf" false, ⟨1, 1⟩⟩, ⟨⟨1, 5⟩, [' ', '"', 'x', '"', ';']⟩)) := by
    decide +kernel
  have hsecond : Token.nextToken? ⟨⟨1, 5⟩, [' ', '"', 'x', '"', ';']⟩
      = .ok (.inr (⟨.text "x" true, ⟨1, 6⟩⟩, ⟨⟨1, 9⟩, [';']⟩)) := by
    decide +kernel
  have hthird : Token.nextToken? ⟨⟨1, 9⟩, [';']⟩
      = .ok (.inr (⟨.semicolon, ⟨1, 9⟩⟩, ⟨⟨1, 10⟩, []⟩)) := by
    decide +kernel
  have hfourth : Token.nextToken? ⟨⟨1, 10⟩, []⟩ = .ok (.inl ⟨1, 10⟩) := rfl
  have hstop : Token.StopsAt "leaf \"x\";" ⟨⟨1, 5⟩, [' ', '"', 'x', '"', ';']⟩ :=
    .next .start hfirst
  have hoccurs : Token.Occurs "leaf \"x\";" ⟨.text "x" true, ⟨1, 6⟩⟩ ['"', 'x', '"', ';'] [';'] :=
    ⟨_, _, hstop, rfl, hsecond⟩
  have hword : ¬ Token.FollowsWord "leaf \"x\";" [';'] := by
    rintro ⟨t, before, ht, k, p, hk, -, hnext⟩
    have hstops : k = ⟨.start, "leaf \"x\";".toList⟩ ∨ k = ⟨⟨1, 5⟩, [' ', '"', 'x', '"', ';']⟩
        ∨ k = ⟨⟨1, 9⟩, [';']⟩ ∨ k = ⟨⟨1, 10⟩, []⟩ := by
      clear hnext
      induction hk with
      | start => exact .inl rfl
      | next _ hnext ih =>
        rcases ih with rfl | rfl | rfl | rfl
        · rw [hfirst] at hnext
          cases hnext
          exact .inr (.inl rfl)
        · rw [hsecond] at hnext
          cases hnext
          exact .inr (.inr (.inl rfl))
        · rw [hthird] at hnext
          cases hnext
          exact .inr (.inr (.inr rfl))
        · rw [hfourth] at hnext
          cases hnext
    rcases hstops with rfl | rfl | rfl | rfl
    · rw [hfirst] at hnext
      cases hnext
    · rw [hsecond] at hnext
      cases hnext
      exact ht
    · rw [hthird] at hnext
      cases hnext
    · rw [hfourth] at hnext
      cases hnext
  have hscan : Token.scan "leaf \"x\";" = ([⟨.text "leaf" false, ⟨1, 1⟩⟩,
      ⟨.text "x" true, ⟨1, 6⟩⟩, ⟨.semicolon, ⟨1, 9⟩⟩], .ok ⟨1, 10⟩) := by
    decide +kernel
  have hparse : parse "o" "leaf \"x\";"
      = .ok ⟨⟨⟨none, "leaf"⟩, some "x", ⟨"o", 1, 1⟩⟩, []⟩ := by
    rw [parse, hscan]
    rfl
  have hcomment : Token.IsBlockComment ['/', '*', '*', '/'] := ⟨[], by decide, rfl⟩
  exact ⟨⟨_, hparse, rfl⟩, hoccurs, hword,
    (parse_commented "o" _ hparse hoccurs (.inr rfl) rfl hcomment).1 hword⟩

/-- Directly behind an unquoted text a block comment is part of that text. -/
theorem comment_in_word :
    parse "a" "leaf x;" = .ok ⟨⟨⟨none, "leaf"⟩, some "x", ⟨"a", 1, 1⟩⟩, []⟩
    ∧ Token.Occurs "leaf x;" ⟨.text "x" false, ⟨1, 6⟩⟩ ['x', ';'] [';']
    ∧ Token.IsBlockComment ['/', '*', '*', '/']
    ∧ String.ofList ("leaf x".toList ++ (['/', '*', '*', '/'] ++ [';'])) = "leaf x/**/;"
    ∧ parse "a" "leaf x/**/;" = .ok ⟨⟨⟨none, "leaf"⟩, some "x/**/", ⟨"a", 1, 1⟩⟩, []⟩ := by
  have hscan : Token.scan "leaf x;" = ([⟨.text "leaf" false, ⟨1, 1⟩⟩,
      ⟨.text "x" false, ⟨1, 6⟩⟩, ⟨.semicolon, ⟨1, 7⟩⟩], .ok ⟨1, 8⟩) := by
    decide +kernel
  have hscan' : Token.scan "leaf x/**/;" = ([⟨.text "leaf" false, ⟨1, 1⟩⟩,
      ⟨.text "x/**/" false, ⟨1, 6⟩⟩, ⟨.semicolon, ⟨1, 11⟩⟩], .ok ⟨1, 12⟩) := by
    decide +kernel
  have hfirst : Token.nextToken? ⟨.start, "leaf x;".toList⟩
      = .ok (.inr (⟨.text "leaf" false, ⟨1, 1⟩⟩, ⟨⟨1, 5⟩, [' ', 'x', ';']⟩)) := by
    decide +kernel
  have hsecond : Token.nextToken? ⟨⟨1, 5⟩, [' ', 'x', ';']⟩
      = .ok (.inr (⟨.text "x" false, ⟨1, 6⟩⟩, ⟨⟨1, 7⟩, [';']⟩)) := by
    decide +kernel
  refine ⟨?_, ⟨_, _, .next .start hfirst, rfl, hsecond⟩, ⟨[], by decide, rfl⟩, rfl, ?_⟩
  · rw [parse, hscan]
    rfl
  · rw [parse, hscan']
    rfl

end Statement

end YangSchema
