import YangSchema.Declaration
import YangSchema.Linkage
import YangSchema.Text.Blank

/-!
# Checking declarations against the grammar

Every built-in statement of a source is checked, in preorder: first its argument, then its
substatements. A substatement that is not allowed is reported before one that appears too often,
and this before one that is missing; the latter two in the order of `Kind.all`. If asked for, the
sections of the module body must come in their order; this is checked at the root, behind its
substatements.
-/

namespace YangSchema

namespace Declaration

/-- An error about a declaration of a source. -/
def fault {α : Type} (id : SourceId) (d : Declaration) (f : GrammarFault) : Result α :=
  .error (.grammar id d.label.keyword.text d.label.location f)

/-! ## Arguments -/

/-- Refuses a name whose prefix is not bound. -/
def checkPrefix (s : LinkedSource) (d : Declaration) (name : String) : Result Unit :=
  match Text.splitOnce? ':' name with
  | none => .ok ()
  | some (p, _) =>
    if (s.prefixes.lookup p).isSome then .ok ()
    else .error (.linkage s.header.id (.unknownPrefix p name d.label.location))

/-- The steps of a path, without blanks around them. -/
def pathSteps (path : String) : List String :=
  ((Text.splitAll '/' path).filter (· != "")).map Text.trim

/-- Whether an argument is one of the words or numbers that a kind of statement takes; kinds with
arguments of other forms take all texts. -/
def isValidArgument (kind : Kind) (argument : String) : Bool :=
  match kind with
  | .config | .mandatory | .requireInstance | .yinElement => argument ∈ ["true", "false"]
  | .status => argument ∈ ["current", "deprecated", "obsolete"]
  | .orderedBy => argument ∈ ["system", "user"]
  | .deviate => argument ∈ ["not-supported", "add", "replace", "delete"]
  | .modifier => argument == "invert-match"
  | .minElements => (Text.unsigned? (Text.wordMax 32) argument).isSome
  | .maxElements =>
    argument == "unbounded" || (Text.unsigned? (Text.wordMax 32) argument).any (0 < ·)
  | .fractionDigits =>
    (Text.unsigned? (Text.wordMax 8) argument).any fun n => 1 ≤ n && n ≤ 18
  | .yangVersion => (Version.ofString? argument).isSome
  | _ => true

/-- Checks the argument of a statement that has one. -/
def checkArgumentText (s : LinkedSource) (d : Declaration) (kind : Kind) (argument : String) :
    Result Unit :=
  match kind with
  | .revision | .revisionDate =>
    if (Revision.ofString? argument).isSome then .ok () else .error (.date argument)
  | .uses | .type | .base => checkPrefix s d argument
  | .augment | .deviation | .refine => (pathSteps argument).forM (checkPrefix s d)
  | _ =>
    if isValidArgument kind argument then .ok ()
    else fault s.header.id d (.invalidArgument argument)

/-- Checks that a statement has an argument exactly if it takes one, and that it is valid. -/
def checkArgument (s : LinkedSource) (d : Declaration) (kind : Kind) : Result Unit :=
  match kind.takesArgument, d.label.argument with
  | true, some argument => checkArgumentText s d kind argument
  | true, none => fault s.header.id d .missingArgument
  | false, some _ => fault s.header.id d .unwantedArgument
  | false, none => .ok ()

/-! ## Substatements -/

/-- Refuses built-in substatements that a kind does not allow. -/
def checkAllowed (id : SourceId) (kind : Kind) (d : Declaration) : Result Unit :=
  d.children.forM fun c =>
    match kind? c with
    | none => .ok ()
    | some k =>
      if (kind.substatement? k).isSome then .ok () else fault id c (.notAllowedUnder kind)

/-- Refuses numbers of present substatements that are out of bounds. -/
def checkCounts (id : SourceId) (kind : Kind) (d : Declaration) : Result Unit :=
  Kind.all.forM fun k =>
    match kind.substatement? k with
    | none => .ok ()
    | some c =>
      if 0 < d.count k && !c.allows (d.count k) then fault id d (.count k (d.count k) c)
      else .ok ()

/-- Refuses the absence of required substatements. -/
def checkRequired (id : SourceId) (kind : Kind) (d : Declaration) : Result Unit :=
  kind.requiredSubstatements.forM fun k =>
    if d.count k = 0 then fault id d (.missingSubstatement k.keyword) else .ok ()

/-- Checks the numbers of substatements. -/
def checkSubstatements (id : SourceId) (kind : Kind) (d : Declaration) : Result Unit := do
  checkAllowed id kind d
  checkCounts id kind d
  checkRequired id kind d

/-! ## Sections -/

/-- Refuses a statement of a section before `current`; statements that are not built in belong to
no section. -/
def checkSections (id : SourceId) (current : Section) : List Declaration → Result Unit
  | [] => .ok ()
  | d :: ds =>
    match d.kind? with
    | none => checkSections id current ds
    | some k =>
      let found := Section.ofKind k
      if found.rank < current.rank then fault id d (.sectionOrder found current)
      else checkSections id found ds

/-! ## All of a source -/

/-- Checks one statement. -/
def checkOne (s : LinkedSource) (d : Declaration) : Result Unit :=
  match d.kind? with
  | none => .ok ()
  | some kind => do
    checkArgument s d kind
    checkSubstatements s.header.id kind d

/-- Checks the statements of a source. -/
def check (s : LinkedSource) (enforceOrder : Bool) (root : Declaration) : Result Unit := do
  checkOne s root
  if enforceOrder && root.kind?.isSome then checkSections s.header.id .header root.children
  (Tree.forestSubtrees root.children).forM (checkOne s)

end Declaration

end YangSchema
