import YangSchema.Proofs.Digits
import YangSchema.Proofs.Grammatical

/-!
# What the check accepts

The check of a source goes through its built-in statements in three passes each: over the
substatements that are there, over the kinds of which there are some, and over the kinds that must
be there. Together they say of every kind, also of one that is absent, that its number of
substatements is within its bound (`checkSubstatements_eq_ok`), and with the arguments that the
grammar holds (`Declaration.check_accepts_grammar`).

Arguments are described here as texts: `Declaration.Takes` says which texts a kind of statement may
have, without the readers that decide it.
-/

namespace YangSchema

/-- A check behind a check passes exactly if both do. -/
theorem Result.andThen_eq_ok {α : Type} {x : Result Unit} {y : Result α} {b : α} :
    (x >>= fun _ => y) = .ok b ↔ x = .ok () ∧ y = .ok b := by
  rw [Result.bind_eq_ok]
  exact ⟨fun ⟨_, hx, hy⟩ => ⟨hx, hy⟩, fun ⟨hx, hy⟩ => ⟨(), hx, hy⟩⟩

/-! ## Texts -/

namespace Text

/-- A text is a number in ASCII digits, behind a plus sign or without one. -/
def IsNumeral (text : String) (n : Nat) : Prop :=
  ∃ digits, (text.toList = digits ∨ text.toList = '+' :: digits) ∧ digits ≠ []
    ∧ (∀ c ∈ digits, isDigit c = true) ∧ digitsValue 0 digits = n

/-- Reading a number gives the number that the text is, if it is within the bound. -/
theorem unsigned?_eq_some {most n : Nat} {text : String} :
    unsigned? most text = some n ↔ IsNumeral text n ∧ n ≤ most := by
  -- a plus sign is no digit, so the digits are what stands behind it
  have hplus : isDigit '+' = false := by decide
  unfold unsigned? IsNumeral
  dsimp only
  rw [Option.filter_eq_some_iff, decide_eq_true_iff]
  refine and_congr_left fun _ => ?_
  split
  · rename_i digits htext
    rw [natOfDigits?_eq_some, htext]
    constructor
    · exact fun h => ⟨digits, .inr rfl, h⟩
    · rintro ⟨_, rfl | heq, hne, hall, hn⟩
      · have hsign := hall '+' List.mem_cons_self
        rw [hplus] at hsign
        cases hsign
      · cases heq
        exact ⟨hne, hall, hn⟩
  · rename_i hnot
    rw [natOfDigits?_eq_some]
    constructor
    · exact fun h => ⟨_, .inl rfl, h⟩
    · rintro ⟨digits, heq | heq, h⟩
      · rw [heq]
        exact h
      · exact absurd heq (hnot digits)

/-- A text is cut at its first separator. -/
theorem splitOnce?_eq_some {sep : Char} {text a b : String} : splitOnce? sep text = some (a, b)
    ↔ text.toList = a.toList ++ sep :: b.toList ∧ sep ∉ a.toList := by
  unfold splitOnce?
  rw [Option.map_eq_some_iff, ← cutChars?_eq_some_iff]
  constructor
  · rintro ⟨⟨x, y⟩, hcut, heq⟩
    obtain ⟨rfl, rfl⟩ := Prod.mk.inj heq
    rwa [String.toList_ofList, String.toList_ofList]
  · intro hcut
    exact ⟨_, hcut, by rw [String.ofList_toList, String.ofList_toList]⟩

end Text

/-- A text is a date: four digits of a year, two of a month and two of a day, with hyphens between
them. -/
def Revision.IsWritten (text : String) : Prop :=
  ∃ year month day, text.toList = year ++ '-' :: month ++ '-' :: day
    ∧ year.length = 4 ∧ month.length = 2 ∧ day.length = 2
    ∧ (∀ c ∈ year ++ month ++ day, Text.isDigit c = true)
    ∧ IsDate (Text.digitsValue 0 year) (Text.digitsValue 0 month) (Text.digitsValue 0 day)

theorem Revision.isSome_ofNumbers?_iff {year month day : Nat} :
    (Revision.ofNumbers? year month day).isSome = true ↔ IsDate year month day := by
  unfold ofNumbers?
  split <;> simp_all

theorem Revision.isSome_ofString?_iff {text : String} :
    (Revision.ofString? text).isSome = true ↔ Revision.IsWritten text := by
  unfold ofString? IsWritten
  generalize text.toList = cs
  constructor
  · intro h
    unfold ofChars? at h
    split at h
    · rename_i y₁ y₂ y₃ y₄ m₁ m₂ d₁ d₂
      split at h
      · rename_i year month day hyear hmonth hday
        obtain ⟨_, hy, rfl⟩ := Text.natOfDigits?_eq_some.1 hyear
        obtain ⟨_, hm, rfl⟩ := Text.natOfDigits?_eq_some.1 hmonth
        obtain ⟨_, hd, rfl⟩ := Text.natOfDigits?_eq_some.1 hday
        refine ⟨[y₁, y₂, y₃, y₄], [m₁, m₂], [d₁, d₂], rfl, rfl, rfl, rfl, ?_,
          isSome_ofNumbers?_iff.1 h⟩
        rw [List.forall_mem_append, List.forall_mem_append]
        exact ⟨⟨hy, hm⟩, hd⟩
      · cases h
    · cases h
  · rintro ⟨year, month, day, rfl, hyear, hmonth, hday, hdigits, hdate⟩
    rw [List.forall_mem_append, List.forall_mem_append] at hdigits
    obtain ⟨⟨hy, hm⟩, hd⟩ := hdigits
    -- the parts have fixed lengths
    match year, month, day, hyear, hmonth, hday with
    | [y₁, y₂, y₃, y₄], [m₁, m₂], [d₁, d₂], _, _, _ =>
      have hyear := Text.natOfDigits?_eq_some.2 ⟨List.cons_ne_nil _ _, hy, rfl⟩
      have hmonth := Text.natOfDigits?_eq_some.2 ⟨List.cons_ne_nil _ _, hm, rfl⟩
      have hday := Text.natOfDigits?_eq_some.2 ⟨List.cons_ne_nil _ _, hd, rfl⟩
      show (ofChars? [y₁, y₂, y₃, y₄, '-', m₁, m₂, '-', d₁, d₂]).isSome = true
      simp only [ofChars?, hyear, hmonth, hday]
      exact isSome_ofNumbers?_iff.2 hdate

namespace Declaration

variable {s : LinkedSource} {d root : Declaration} {kind : Kind} {name argument : String}

/-! ## Arguments -/

/-- What stands before the first colon of a name is a prefix that the source binds. -/
def HasBoundPrefix (s : LinkedSource) (name : String) : Prop :=
  ∀ p bare : String, name.toList = p.toList ++ ':' :: bare.toList → ':' ∉ p.toList →
    ∃ module, s.prefixes.lookup p = some module

/-- The texts that a kind of statement may have as its argument. -/
def Takes (s : LinkedSource) (kind : Kind) (argument : String) : Prop :=
  match kind with
  | .config | .mandatory | .requireInstance | .yinElement => argument = "true" ∨ argument = "false"
  | .status => argument = "current" ∨ argument = "deprecated" ∨ argument = "obsolete"
  | .orderedBy => argument = "system" ∨ argument = "user"
  | .deviate =>
    argument = "not-supported" ∨ argument = "add" ∨ argument = "replace" ∨ argument = "delete"
  | .modifier => argument = "invert-match"
  | .minElements => ∃ n, Text.IsNumeral argument n ∧ n < 4294967296
  | .maxElements =>
    argument = "unbounded" ∨ ∃ n, Text.IsNumeral argument n ∧ 0 < n ∧ n < 4294967296
  | .fractionDigits => ∃ n, Text.IsNumeral argument n ∧ 1 ≤ n ∧ n ≤ 18
  | .yangVersion => argument = "1" ∨ argument = "1.0" ∨ argument = "1.1"
  | .revision | .revisionDate => Revision.IsWritten argument
  | .uses | .type | .base => HasBoundPrefix s argument
  | .augment | .deviation | .refine => ∀ step ∈ pathSteps argument, HasBoundPrefix s step
  | _ => True

theorem hasBoundPrefix_iff_splitOnce? : HasBoundPrefix s name
    ↔ ∀ p bare, Text.splitOnce? ':' name = some (p, bare) →
        ∃ module, s.prefixes.lookup p = some module := by
  unfold HasBoundPrefix
  exact forall₂_congr fun p bare => by rw [Text.splitOnce?_eq_some, and_imp]

theorem checkPrefix_eq_ok : checkPrefix s d name = .ok () ↔ HasBoundPrefix s name := by
  rw [hasBoundPrefix_iff_splitOnce?]
  unfold checkPrefix
  cases Text.splitOnce? ':' name with
  | none => exact iff_of_true rfl fun _ _ h => nomatch h
  | some parts =>
    obtain ⟨p, bare⟩ := parts
    dsimp only
    constructor
    · rintro h _ _ ⟨⟩
      split at h
      · rename_i hbound
        exact Option.isSome_iff_exists.1 hbound
      · cases h
    · intro h
      rw [if_pos (Option.isSome_iff_exists.2 (h p bare rfl))]

theorem isSome_version_iff : (Version.ofString? argument).isSome = true
    ↔ argument = "1" ∨ argument = "1.0" ∨ argument = "1.1" := by
  unfold Version.ofString?
  rw [← or_assoc]
  split
  · simp_all
  · split <;> simp_all

/-- A number is read exactly if the argument is one within the bounds. -/
theorem any_unsigned?_iff {most : Nat} {p : Nat → Bool} :
    (Text.unsigned? most argument).any p = true
      ↔ ∃ n, Text.IsNumeral argument n ∧ n ≤ most ∧ p n = true := by
  rw [Option.any_eq_true]
  exact exists_congr fun n => by rw [Text.unsigned?_eq_some, and_assoc]

/-- Where no name and no date is wanted, the words and numbers are those that the grammar names. -/
theorem isValidArgument_iff
    (hplain : kind ∉
      [.revision, .revisionDate, .uses, .type, .base, .augment, .deviation, .refine]) :
    isValidArgument kind argument = true ↔ Takes s kind argument := by
  unfold isValidArgument
  split
  case h_9 =>
    rw [← Option.any_true, any_unsigned?_iff]
    exact exists_congr fun n => and_congr_right fun _ => by
      rw [and_iff_left rfl, show Text.wordMax 32 = 4294967295 by decide]; omega
  case h_10 =>
    rw [Bool.or_eq_true, beq_iff_eq, any_unsigned?_iff]
    refine or_congr_right (exists_congr fun n => and_congr_right fun _ => ?_)
    rw [decide_eq_true_iff, show Text.wordMax 32 = 4294967295 by decide]; omega
  case h_11 =>
    rw [any_unsigned?_iff]
    refine exists_congr fun n => and_congr_right fun _ => ?_
    rw [Bool.and_eq_true, decide_eq_true_iff, decide_eq_true_iff,
      show Text.wordMax 8 = 255 by decide]; omega
  case h_12 => exact isSome_version_iff
  case h_13 =>
    -- the other kinds take every text
    refine iff_of_true rfl ?_
    unfold Takes
    split <;> simp_all
  all_goals simp [Takes]

/-- An argument passes the check exactly if the kind of its statement takes it. -/
theorem checkArgumentText_eq_ok :
    checkArgumentText s d kind argument = .ok () ↔ Takes s kind argument := by
  unfold checkArgumentText
  split
  case h_1 | h_2 =>
    rw [Takes, ← Revision.isSome_ofString?_iff]
    split <;> simp_all
  case h_3 | h_4 | h_5 => exact checkPrefix_eq_ok
  case h_6 | h_7 | h_8 =>
    rw [Result.forM_eq_ok]
    exact forall₂_congr fun step _ => checkPrefix_eq_ok
  case h_9 =>
    rw [← isValidArgument_iff (by simp_all)]
    split <;> simp_all [fault]

/-- A statement passes the check of its argument exactly if it has one when its kind takes one, and
one that the kind takes. -/
theorem checkArgument_eq_ok : checkArgument s d kind = .ok ()
    ↔ d.label.argument.isSome = kind.takesArgument
      ∧ ∀ argument, d.label.argument = some argument → Takes s kind argument := by
  unfold checkArgument
  split <;> simp_all [checkArgumentText_eq_ok, fault]

/-! ## Substatements -/

/-- The built-in kinds of the substatements, in their order. -/
def childKinds (d : Declaration) : List Kind := d.children.filterMap kind?

theorem mem_childKinds {k : Kind} : k ∈ d.childKinds ↔ ∃ c ∈ d.children, kind? c = some k :=
  List.mem_filterMap

theorem count_childKinds (d : Declaration) (k : Kind) : d.childKinds.count k = d.count k := by
  unfold childKinds Declaration.count childrenOfKind
  rw [← List.countP_eq_length_filter, List.count, List.countP_filterMap]
  refine congrArg (fun p => List.countP p d.children) (funext fun c => ?_)
  unfold is
  cases kind? c <;> rfl

theorem count_eq_zero_iff {k : Kind} : d.count k = 0 ↔ k ∉ d.childKinds := by
  rw [← count_childKinds, List.count_eq_zero]

/-- The first pass: only kinds that are allowed are there. -/
theorem checkAllowed_eq_ok {id : SourceId} : checkAllowed id kind d = .ok ()
    ↔ ∀ k ∈ d.childKinds, (kind.substatement? k).isSome = true := by
  unfold checkAllowed
  rw [Result.forM_eq_ok]
  constructor
  · intro h k hk
    obtain ⟨c, hc, hkind⟩ := mem_childKinds.1 hk
    have hchild := h c hc
    simp only [hkind] at hchild
    by_contra hnot
    rw [if_neg hnot] at hchild
    cases hchild
  · intro h c hc
    cases hkind : kind? c with
    | none => rfl
    | some k => exact if_pos (h k (mem_childKinds.2 ⟨c, hc, hkind⟩))

/-- The second pass: a kind of which there are some is there as often as it may. -/
theorem checkCounts_eq_ok {id : SourceId} : checkCounts id kind d = .ok ()
    ↔ ∀ k c, kind.substatement? k = some c → 0 < d.count k → c.allows (d.count k) = true := by
  unfold checkCounts
  rw [Result.forM_eq_ok]
  refine forall_congr' fun k => ?_
  rw [imp_iff_right (Kind.mem_all k)]
  cases kind.substatement? k with
  | none => simp
  | some c =>
    dsimp only
    split <;> simp_all [fault]

/-- The third pass: a kind of which there must be some is there. -/
theorem checkRequired_eq_ok {id : SourceId} : checkRequired id kind d = .ok ()
    ↔ ∀ k c, kind.substatement? k = some c → c.isRequired = true → d.count k ≠ 0 := by
  unfold checkRequired Kind.requiredSubstatements
  rw [Result.forM_eq_ok]
  refine forall_congr' fun k => ?_
  rw [List.mem_filter, and_iff_right (Kind.mem_all k)]
  cases kind.substatement? k with
  | none => simp
  | some c => split <;> simp_all [fault]

/-- Together the three passes see to every kind, whether it is there or not. -/
theorem checkSubstatements_eq_ok {id : SourceId} : checkSubstatements id kind d = .ok ()
    ↔ (∀ k, kind.substatement? k = none → d.childKinds.count k = 0)
      ∧ ∀ k c, kind.substatement? k = some c → c.allows (d.childKinds.count k) = true := by
  unfold checkSubstatements
  rw [Result.andThen_eq_ok, Result.andThen_eq_ok, checkAllowed_eq_ok, checkCounts_eq_ok,
    checkRequired_eq_ok]
  simp only [count_childKinds]
  refine and_congr ?_ ⟨fun ⟨hpresent, hrequired⟩ k c hc => ?_, fun h => ⟨?_, ?_⟩⟩
  · refine forall_congr' fun k => ?_
    rw [count_eq_zero_iff, ← Option.not_isSome_iff_eq_none, not_imp_not]
  -- what must be there is not absent, so an absent kind is allowed to be
  · rcases Nat.eq_zero_or_pos (d.count k) with hzero | hpos
    · rw [hzero, ← Bool.not_eq_false]
      exact fun hnot => hrequired k c hc (c.isRequired_iff.2 hnot) hzero
    · exact hpresent k c hc hpos
  · exact fun k c hc _ => h k c hc
  · intro k c hc hrequired hzero
    have hallows := h k c hc
    rw [hzero, c.isRequired_iff.1 hrequired] at hallows
    cases hallows

/-! ## Sections -/

/-- The sections of the built-in substatements, in their order, by their places. -/
def sectionRanks (ds : List Declaration) : List Nat :=
  (ds.filterMap kind?).map fun k => (Section.ofKind k).rank

/-- The running section is the latest so far: a list passes exactly if no section in it comes
before the running one nor before one that stands further left. -/
theorem checkSections_eq_ok {id : SourceId} {current : Section} {ds : List Declaration} :
    checkSections id current ds = .ok ()
      ↔ (current.rank :: sectionRanks ds).Pairwise (· ≤ ·) := by
  induction ds generalizing current with
  | nil => exact iff_of_true rfl (List.pairwise_singleton _ _)
  | cons d ds ih =>
    unfold checkSections
    cases hkind : d.kind? with
    | none =>
      rw [show sectionRanks (d :: ds) = sectionRanks ds from
        congrArg (List.map _) (List.filterMap_cons_none hkind)]
      exact ih
    | some k =>
      rw [show sectionRanks (d :: ds) = (Section.ofKind k).rank :: sectionRanks ds from
        congrArg (List.map _) (List.filterMap_cons_some hkind)]
      dsimp only
      split
      · rename_i hbefore
        refine iff_of_false (fun h => nomatch h) fun h => ?_
        exact absurd (List.rel_of_pairwise_cons h List.mem_cons_self) (Nat.not_le.2 hbefore)
      · rename_i hnot
        rw [ih, List.pairwise_cons (a := current.rank)]
        refine ⟨fun h => ⟨?_, h⟩, And.right⟩
        -- what is not before the found section is not before the running one
        refine List.forall_mem_cons.2 ⟨Nat.not_lt.1 hnot, fun rank hrank => ?_⟩
        exact (Nat.not_lt.1 hnot).trans (List.rel_of_pairwise_cons h hrank)

/-! ## All of a source -/

/-- The rules for a built-in statement of a kind. -/
structure Conforms (s : LinkedSource) (kind : Kind) (d : Declaration) : Prop where
  /-- It has an argument exactly if its kind takes one. -/
  hasArgument : d.label.argument.isSome = kind.takesArgument
  takes : ∀ argument, d.label.argument = some argument → Takes s kind argument
  forbidden : ∀ k, kind.substatement? k = none → d.childKinds.count k = 0
  bounded : ∀ k c, kind.substatement? k = some c → c.allows (d.childKinds.count k) = true

/-- One statement passes the check exactly if it is not built in or follows the rules. -/
theorem checkOne_eq_ok :
    checkOne s d = .ok () ↔ ∀ kind, d.kind? = some kind → Conforms s kind d := by
  unfold checkOne
  cases d.kind? with
  | none => simp
  | some kind =>
    dsimp only
    rw [Result.andThen_eq_ok, checkArgument_eq_ok, checkSubstatements_eq_ok]
    simp only [Option.some.injEq, forall_eq']
    exact ⟨fun h => ⟨h.1.1, h.1.2, h.2.1, h.2.2⟩,
      fun h => ⟨⟨h.hasArgument, h.takes⟩, h.forbidden, h.bounded⟩⟩

/-- The check goes over every statement, and over the sections below a built-in root. -/
theorem check_eq_ok {order : Bool} : check s order root = .ok ()
    ↔ (∀ d ∈ root.subtrees, checkOne s d = .ok ())
      ∧ (order = true → root.kind?.isSome = true →
          checkSections s.header.id .header root.children = .ok ()) := by
  unfold check
  rw [Result.andThen_eq_ok]
  have hsubtrees : (∀ d ∈ root.subtrees, checkOne s d = .ok ()) ↔ checkOne s root = .ok ()
      ∧ ∀ d ∈ Tree.forestSubtrees root.children, checkOne s d = .ok () := by
    obtain ⟨label, children⟩ := root
    rw [Tree.subtrees, List.forall_mem_cons]
  rw [hsubtrees, and_assoc, ← and_imp, ← Bool.and_eq_true, ← Result.forM_eq_ok]
  refine and_congr_right fun _ => ?_
  dsimp only
  split
  · rename_i horder
    rw [Result.andThen_eq_ok, forall_prop_of_true horder, and_comm]
  · rename_i horder
    rw [forall_prop_of_false horder, and_true]

/-- A root below which, unless it is built in itself, nothing is built in: binding makes no
others. -/
def IsBoundRoot (root : Declaration) : Prop :=
  root.kind? = none → ∀ c ∈ root.children, kind? c = none

theorem isBoundRoot_of_kind? (h : root.kind? = some kind) : root.IsBoundRoot :=
  fun hnone => nomatch h.symm.trans hnone

theorem isBoundRoot_of_ofStatement {extensions : Extensions} {stmt : Statement}
    (h : ofStatement extensions s stmt = .ok root) : root.IsBoundRoot :=
  fun hnone _ => kind?_of_ofStatement h (Tree.mem_subtrees_self root) hnone

/-- **The check accepts exactly the grammar.** A source passes exactly if every built-in statement
follows the rules for its kind and, where the order is enforced, of any two built-in statements
below the root the left one does not belong to a later section. -/
theorem check_accepts_grammar {s : LinkedSource} {order : Bool} {root : Declaration}
    (hbound : root.IsBoundRoot) : check s order root = .ok ()
      ↔ (∀ d ∈ root.subtrees, ∀ kind, Declaration.kind? d = some kind → Conforms s kind d)
        ∧ (order = true → (sectionRanks root.children).Pairwise (· ≤ ·)) := by
  simp only [check_eq_ok, checkOne_eq_ok, checkSections_eq_ok]
  refine and_congr_right fun _ => forall_congr' fun _ => ?_
  -- no section comes before the first one
  have hstart : ∀ rank ∈ sectionRanks root.children, Section.header.rank ≤ rank :=
    fun rank _ => Nat.zero_le rank
  rw [List.pairwise_cons, and_iff_right hstart]
  cases hkind : root.kind? with
  | some kind => exact imp_iff_right rfl
  | none =>
    rw [show sectionRanks root.children = [] from
      congrArg (List.map _) (List.filterMap_eq_nil_iff.2 (hbound hkind))]
    exact iff_of_true (fun h => nomatch h) List.Pairwise.nil

/-- A module with a leaf behind its header. -/
def leafModule : Declaration :=
  let written (kind : Kind) (argument : String) (children : List Declaration) : Declaration :=
    ⟨⟨⟨.ofString kind.keyword, some argument, .synthetic "leaf"⟩, 0, .builtin kind⟩, children⟩
  written .module "m" [written .namespaceStmt "urn:m" [], written .prefixStmt "m" [],
    written .leaf "l" [written .type "m:t" []]]

/-- How the module is linked. -/
def leafSource : LinkedSource :=
  let m : SourceId := ⟨"m", none⟩
  ⟨⟨m, .module "m", .v1, "m", [], [], .synthetic "leaf"⟩, m, [("m", m)]⟩

/-- The module passes. With its substatements in reverse it does not, but only if the order is
enforced. -/
theorem check_accepts_grammar_leafModule :
    (Conforms leafSource .module leafModule
      ∧ (sectionRanks leafModule.children).Pairwise (· ≤ ·))
    ∧ check leafSource true ⟨leafModule.label, leafModule.children.reverse⟩ ≠ .ok ()
    ∧ check leafSource false ⟨leafModule.label, leafModule.children.reverse⟩ = .ok () := by
  refine ⟨?_, fun h => ?_, by decide +kernel⟩
  · have hcheck : check leafSource true leafModule = .ok () := by decide +kernel
    obtain ⟨hconforms, hsections⟩ := (check_accepts_grammar (isBoundRoot_of_kind? rfl)).1 hcheck
    exact ⟨hconforms _ (Tree.mem_subtrees_self _) .module rfl, hsections rfl⟩
  · have hsections := ((check_accepts_grammar (isBoundRoot_of_kind? rfl)).1 h).2 rfl
    exact absurd hsections (by decide)

end Declaration

end YangSchema
