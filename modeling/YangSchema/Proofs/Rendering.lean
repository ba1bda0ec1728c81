import YangSchema.Proofs.TokenGrammar
import YangSchema.Proofs.Trees

/-!
# Reading what was written

`Statement.Renders` says how a statement may be written: its keywords as they print, its arguments
as texts in double quotes joined by `+`, and any trivia between the tokens, so long as a blank
comes first behind an unquoted text. What is written so is read as the same statement
(`Statement.parse_rendering`), whatever its arguments hold.

Each token is read back from what is written for it, if what follows ends it
(`Token.nextToken?_written`); so the text is divided into the tokens that were written
(`Token.Layout.reads`), and these spell the statement.
-/

namespace YangSchema

/-! ## Words -/

/-- What can be written as an unquoted text: it is not empty, holds no delimiter and does not start
a comment. -/
structure Token.PlainWord (word : List Char) : Prop where
  nonempty : word ≠ []
  noDelimiter : ∀ c ∈ word, Token.isDelimiter c = false
  noLineComment : ¬ ['/', '/'] <+: word
  noBlockComment : ¬ ['/', '*'] <+: word

/-- A keyword that can be written as an unquoted text and is told apart from its prefix. -/
structure Keyword.Writable (k : Keyword) : Prop where
  word : Token.PlainWord k.text.toList
  noColon : ':' ∉ (k.qualifier.getD k.identifier).toList

theorem Keyword.ofString_text {k : Keyword} (h : ':' ∉ (k.qualifier.getD k.identifier).toList) :
    ofString k.text = k := by
  obtain ⟨qualifier, identifier⟩ := k
  cases qualifier with
  | none =>
    have hcut : Text.cutChars? ':' identifier.toList = none := Text.cutChars?_eq_none_iff.2 h
    simp only [ofString, text, Text.splitOnce?, hcut, Option.map_none]
  | some p =>
    have hcut : Text.cutChars? ':' (p ++ ":" ++ identifier).toList
        = some (p.toList, identifier.toList) := by
      apply Text.cutChars?_eq_some_iff.2
      exact ⟨by simp [String.toList_append], h⟩
    simp only [ofString, text, Text.splitOnce?, hcut, Option.map_some, String.ofList_toList]

namespace Token

theorem PlainWord.plus : PlainWord "+".toList := by
  have hchars : "+".toList = ['+'] := rfl
  rw [hchars]
  refine ⟨by decide, ?_, by decide, by decide⟩
  rw [List.forall_mem_singleton]
  decide

/-! ## Written tokens -/

/-- A character of a quoted text, with a backslash in front if it needs one. -/
def escape (c : Char) : List Char := if c = '"' ∨ c = '\\' then ['\\', c] else [c]

/-- How a token is written. -/
def written : Token → List Char
  | .text v false => v.toList
  | .text v true => '"' :: (v.toList.flatMap escape ++ ['"'])
  | .opening => ['\x7b']
  | .closing => ['\x7d']
  | .semicolon => [';']

/-- Written tokens with trivia behind each of them; behind an unquoted text a blank comes first. -/
inductive Layout : List Token → List Char → Prop where
  | nil : Layout [] []
  | cons {t : Token} {ts : List Token} {gap cs : List Char} :
    IsTrivia gap → (IsWord t → ∃ b rest, gap = b :: rest ∧ Text.isBlank b = true) → Layout ts cs →
      Layout (t :: ts) (t.written ++ (gap ++ cs))

theorem doubleQuoted_escape (v acc w : List Char) (p : Position) :
    ∃ q, doubleQuoted acc p (v.flatMap escape ++ '"' :: w) = some (acc.reverse ++ v, ⟨q, w⟩) := by
  induction v generalizing acc p with
  | nil => exact ⟨p.step '"', by simp [doubleQuoted]⟩
  | cons c v ih =>
    rw [List.flatMap_cons, List.append_assoc]
    have hpush : acc.reverse ++ c :: v = (c :: acc).reverse ++ v := by simp
    rw [hpush]
    by_cases hquote : c = '"'
    · subst hquote
      exact ih _ _
    by_cases hbackslash : c = '\\'
    · subst hbackslash
      exact ih _ _
    · obtain ⟨q, hq⟩ := ih (c :: acc) (p.step c)
      refine ⟨q, ?_⟩
      rw [escape, if_neg (by simp [hquote, hbackslash]), List.singleton_append, doubleQuoted,
        if_neg hquote, hq]
      · exact fun heq => absurd heq hbackslash
      · exact fun _ _ heq => absurd heq hbackslash

/-- A delimiter in front is not part of an unquoted text. -/
theorem PlainWord.startsToken {word w : List Char} (h : PlainWord word) (hw : Delimited w) :
    StartsToken (word ++ w) := by
  obtain ⟨hnonempty, hdelimiter, hline, hblock⟩ := h
  cases word with
  | nil => exact absurd rfl hnonempty
  | cons c u =>
    have hc : isDelimiter c = false := hdelimiter c (by simp)
    refine ⟨?_, ?_⟩
    · simp only [isDelimiter, Bool.or_eq_false_iff] at hc
      exact hc.1.1.1.1.1
    · rintro rfl
      cases u with
      | nil => constructor <;> intro hhead <;> exact absurd (hw _ hhead) (by decide)
      | cons d u =>
        constructor <;> intro hhead
        · cases hhead
          exact hline ⟨u, rfl⟩
        · cases hhead
          exact hblock ⟨u, rfl⟩

theorem readToken_word {p : Position} {c : Char} {u w : List Char}
    (h : ∀ d ∈ c :: u, isDelimiter d = false) (hw : Delimited w) :
    readToken p c (u ++ w)
      = .ok (.text (String.ofList (c :: u)) false, ⟨p.advance (c :: u), w⟩) := by
  obtain ⟨hc, hu⟩ := List.forall_mem_cons.1 h
  simp only [isDelimiter, Bool.or_eq_false_iff, beq_eq_false_iff_ne] at hc
  obtain ⟨⟨⟨⟨⟨-, hopen⟩, hclose⟩, hsemicolon⟩, hdouble⟩, hsingle⟩ := hc
  obtain ⟨htake, hdrop⟩ := takeWhile_word hu hw
  simp only [readToken, if_neg hopen, if_neg hclose, if_neg hsemicolon, if_neg hdouble,
    if_neg hsingle, htake, hdrop]

/-- A written token is read back, if what follows ends it. -/
theorem nextToken?_written {t : Token} (ht : ∀ v, t = .text v false → PlainWord v.toList)
    {w : List Char} (hw : IsWord t → Delimited w) (p : Position) :
    ∃ q q', nextToken? ⟨p, t.written ++ w⟩ = .ok (.inr (⟨t, q⟩, ⟨q', w⟩)) := by
  cases t with
  | text v quoted =>
    cases quoted with
    | false =>
      have hplain := ht v rfl
      have hdelimited := hw trivial
      have hstarts := hplain.startsToken hdelimited
      cases hv : v.toList with
      | nil => exact absurd hv hplain.nonempty
      | cons c u =>
        rw [hv] at hstarts hplain
        have hread := readToken_word (p := p) hplain.noDelimiter hdelimited
        have hvalue : String.ofList (c :: u) = v := by rw [← hv, String.ofList_toList]
        rw [hvalue] at hread
        refine ⟨p, p.advance (c :: u), ?_⟩
        simp only [written, hv, List.cons_append] at hstarts ⊢
        simp only [nextToken?, hstarts.skipTrivia, hread]
    | true =>
      obtain ⟨q', hq'⟩ := doubleQuoted_escape v.toList [] w (p.step '"')
      have hstarts : StartsToken ('"' :: (v.toList.flatMap escape ++ '"' :: w)) :=
        ⟨by decide, fun h => absurd h (by decide)⟩
      refine ⟨p, q', ?_⟩
      simp [nextToken?, written, hstarts.skipTrivia, readToken, hq']
  | opening =>
    refine ⟨p, p.step '\x7b', ?_⟩
    have hstarts : StartsToken ('\x7b' :: w) := ⟨by decide, fun h => absurd h (by decide)⟩
    simp [nextToken?, written, hstarts.skipTrivia, readToken]
  | closing =>
    refine ⟨p, p.step '\x7d', ?_⟩
    have hstarts : StartsToken ('\x7d' :: w) := ⟨by decide, fun h => absurd h (by decide)⟩
    simp [nextToken?, written, hstarts.skipTrivia, readToken]
  | semicolon =>
    refine ⟨p, p.step ';', ?_⟩
    have hstarts : StartsToken (';' :: w) := ⟨by decide, fun h => absurd h (by decide)⟩
    simp [nextToken?, written, hstarts.skipTrivia, readToken]

/-- What was written is divided into the tokens that were written. -/
theorem Layout.reads {ts : List Token} {cs : List Char} (h : Layout ts cs)
    (hts : ∀ t ∈ ts, ∀ v, t = .text v false → PlainWord v.toList) : Reads cs ts := by
  induction h with
  | nil => exact Reads.of_end fun p => ⟨p, rfl⟩
  | @cons t ts gap cs hgap hblank _ ih =>
    obtain ⟨ht, hts⟩ := List.forall_mem_cons.1 hts
    have hrest : Reads (gap ++ cs) ts := (Reads.gap_iff fun _ _ => hgap.skipTrivia).2 (ih hts)
    have hdelimited : IsWord t → Delimited (gap ++ cs) := by
      intro hword c hc
      obtain ⟨b, rest, rfl, hb⟩ := hblank hword
      cases hc
      simp [isDelimiter, hb]
    exact Reads.of_token (nextToken?_written ht hdelimited) hrest

end Token

namespace Statement

/-! ## Written statements -/

/-- The tokens of a head as they are written: the keyword as it prints, and the argument quoted. -/
inductive PrintedTokens : Keyword × Option String → List Token → Prop where
  | bare (k : Keyword) : PrintedTokens (k, none) [.text k.text false]
  | quoted (k : Keyword) {v : String} {ts : List Token} :
    QuotedTokens v ts → PrintedTokens (k, some v) (.text k.text false :: ts)

/-- The text is a way to write the statement. -/
def Renders (s : Statement) (text : String) : Prop :=
  ∃ ts gap cs, Spelled PrintedTokens s.content ts ∧ Token.IsTrivia gap ∧ Token.Layout ts cs
    ∧ text.toList = gap ++ cs

theorem PrintedTokens.headTokens {k : Keyword} {argument : Option String} {ts : List Token}
    (h : PrintedTokens (k, argument) ts) (hk : k.Writable) : HeadTokens (k, argument) ts := by
  rw [← Keyword.ofString_text hk.noColon]
  cases h with
  | bare => exact .intro _ .absent
  | quoted _ hquoted => exact .intro _ (.quoted hquoted)

/-- The only unquoted text between quoted ones is `+`. -/
theorem QuotedTokens.plus_of_mem {v w : String} {ts : List Token} (h : QuotedTokens v ts)
    (hw : .text w false ∈ ts) : w = "+" := by
  induction h with
  | one v => simp at hw
  | more w _ ih =>
    simp only [List.mem_append, List.mem_cons, Token.text.injEq] at hw
    rcases hw with hw | hw | hw
    · exact ih hw
    · exact hw.1
    · simp at hw

theorem PrintedTokens.plainWord {k : Keyword} {argument : Option String} {ts : List Token}
    (h : PrintedTokens (k, argument) ts) (hk : k.Writable) :
    ∀ t ∈ ts, ∀ v, t = .text v false → Token.PlainWord v.toList := by
  cases h with
  | bare =>
    simp only [List.mem_singleton]
    rintro t rfl v hv
    cases hv
    exact hk.word
  | quoted _ hquoted =>
    rw [List.forall_mem_cons]
    constructor
    · intro v hv
      cases hv
      exact hk.word
    · rintro t ht v rfl
      rw [hquoted.plus_of_mem ht]
      exact .plus

/-- **Reading undoes writing.** -/
theorem parse_rendering (origin : String) {s : Statement} {text : String}
    (hkeywords : ∀ h ∈ s.preorder, h.keyword.Writable) (htext : Renders s text) :
    ∃ t, parse origin text = .ok t ∧ t.content = s.content := by
  obtain ⟨ts, gap, cs, hspelled, hgap, hlayout, hchars⟩ := htext
  have hwritable : ∀ head ∈ s.content.preorder, head.1.Writable := by
    unfold content
    rw [Tree.preorder_map, List.forall_mem_map]
    exact hkeywords
  have hboth : Spelled (fun head us => HeadTokens head us
      ∧ ∀ t ∈ us, ∀ v, t = .text v false → Token.PlainWord v.toList) s.content ts :=
    hspelled.mono fun head hhead us hus =>
      ⟨hus.headTokens (hwritable head hhead), hus.plainWord (hwritable head hhead)⟩
  have hwords := hboth.forall_token (fun _ _ h => h.2) (fun _ h => nomatch h)
    (fun _ h => nomatch h) (fun _ h => nomatch h)
  have hreads : Token.Reads text.toList ts := by
    rw [hchars, Token.Reads.gap_iff fun _ _ => hgap.skipTrivia]
    exact hlayout.reads hwords
  exact exists_parse_iff_reads.2 ⟨ts, hreads, hboth.mono fun _ _ _ h => h.1⟩

theorem parse_rendering_tricky_comments :
    let s : Statement := ⟨⟨⟨some "p", "m"⟩, some "a\"b", .nowhere⟩, []⟩
    let text := "p:m /**/\"a\"/*/ */+ //\"\n\"\\\"b\"\x7b \x7d"
    (∀ h ∈ s.preorder, h.keyword.Writable) ∧ Renders s text
      ∧ ∃ t, parse "o" text = .ok t ∧ t.content = s.content := by
  intro s text
  have hword : Token.PlainWord "p:m".toList := by
    have hchars : "p:m".toList = ['p', ':', 'm'] := rfl
    rw [hchars]
    exact ⟨by decide, by simp [Token.isDelimiter, Text.isBlank], by decide, by decide⟩
  have hkeywords : ∀ h ∈ s.preorder, h.keyword.Writable := by
    have hpreorder : s.preorder = [⟨⟨some "p", "m"⟩, some "a\"b", .nowhere⟩] := rfl
    rw [hpreorder, List.forall_mem_singleton]
    exact ⟨hword, by decide⟩
  have hrenders : Renders s text := by
    have hargument : QuotedTokens "a\"b" [.text "a" true, .text "+" false, .text "\"b" true] :=
      .more "\"b" (.one "a")
    let ts : List Token := [.text "p:m" false, .text "a" true, .text "+" false,
      .text "\"b" true, .opening, .closing]
    have hspelled : Spelled PrintedTokens s.content ts :=
      .block (PrintedTokens.quoted ⟨some "p", "m"⟩ hargument) .nil
    have hblank {c : Char} {cs : List Char} (h : Text.isBlank c = true) :
        ∃ b rest, c :: cs = b :: rest ∧ Text.isBlank b = true := ⟨c, cs, rfl, h⟩
    have hempty : Token.IsBlockComment "/**/".toList := ⟨[], by decide, rfl⟩
    have hslash : Token.IsBlockComment "/*/ */".toList := ⟨['/', ' '], by decide, rfl⟩
    have hline : Token.IsLineComment "//\"\n".toList := ⟨['"'], by decide, rfl⟩
    have hlayout : Token.Layout ts _ :=
      .cons (.blank (c := ' ') rfl (.block hempty .nil)) (fun _ => hblank rfl) <|
      .cons (.block hslash .nil) False.elim <|
      .cons (.blank (c := ' ') rfl (.line hline .nil)) (fun _ => hblank rfl) <|
      .cons .nil False.elim <|
      .cons (.blank (c := ' ') rfl .nil) False.elim <|
      .cons .nil False.elim .nil
    exact ⟨ts, [], _, hspelled, .nil, hlayout, by decide⟩
  exact ⟨hkeywords, hrenders, parse_rendering "o" hkeywords hrenders⟩

end Statement

end YangSchema
