/-!
# Names of character properties

A pattern may name a set of characters by a Unicode property, as in `\p{Greek}` or
`\p{script=Greek}`. Names are compared without regard to case, blanks, hyphens, underscores and a
leading `is`. The tables list the short and long names after Unicode 16.
-/

namespace YangSchema

namespace Pattern

namespace Property

/-- The properties that a character has or has not. -/
def binaryNames : List String := [
  "ahex", "alpha", "alphabetic", "asciihexdigit", "bidic", "bidicontrol", "bidim", "bidimirrored",
  "cased", "caseignorable", "changeswhencasefolded", "changeswhencasemapped",
  "changeswhenlowercased", "changeswhentitlecased", "changeswhenuppercased", "ci", "cwcf", "cwcm",
  "cwl", "cwt", "cwu", "dash", "defaultignorablecodepoint", "dep", "deprecated", "di", "dia",
  "diacritic", "ebase", "ecomp", "emod", "emoji", "emojicomponent", "emojimodifier",
  "emojimodifierbase", "emojipresentation", "epres", "ext", "extendedpictographic", "extender",
  "extpict", "graphemebase", "graphemeextend", "graphemelink", "grbase", "grext", "grlink", "hex",
  "hexdigit", "hyphen", "idc", "idcompatmathcontinue", "idcompatmathstart", "idcontinue", "ideo",
  "ideographic", "ids", "idsb", "idsbinaryoperator", "idst", "idstart", "idstrinaryoperator",
  "idsu", "idsunaryoperator", "joinc", "joincontrol", "loe", "logicalorderexception", "lower",
  "lowercase", "math", "mcm", "modifiercombiningmark", "nchar", "noncharactercodepoint", "oalpha",
  "odi", "ogrext", "oidc", "oids", "olower", "omath", "otheralphabetic",
  "otherdefaultignorablecodepoint", "othergraphemeextend", "otheridcontinue", "otheridstart",
  "otherlowercase", "othermath", "otheruppercase", "oupper", "patsyn", "patternsyntax",
  "patternwhitespace", "patws", "pcm", "prependedconcatenationmark", "qmark", "quotationmark",
  "radical", "regionalindicator", "ri", "sd", "sentenceterminal", "softdotted", "space", "sterm",
  "term", "terminalpunctuation", "uideo", "unifiedideograph", "upper", "uppercase",
  "variationselector", "vs", "whitespace", "wspace", "xidc", "xidcontinue", "xids", "xidstart"]

/-- The general categories, but for that of half characters, and the sets named like them. -/
def categoryNames : List String := [
  "c", "casedletter", "cc", "cf", "closepunctuation", "cn", "cntrl", "co", "combiningmark",
  "connectorpunctuation", "control", "currencysymbol", "dashpunctuation", "decimalnumber", "digit",
  "enclosingmark", "finalpunctuation", "format", "initialpunctuation", "l", "lc", "letter",
  "letternumber", "lineseparator", "ll", "lm", "lo", "lowercaseletter", "lt", "lu", "m", "mark",
  "mathsymbol", "mc", "me", "mn", "modifierletter", "modifiersymbol", "n", "nd", "nl", "no",
  "nonspacingmark", "number", "openpunctuation", "other", "otherletter", "othernumber",
  "otherpunctuation", "othersymbol", "p", "paragraphseparator", "pc", "pd", "pe", "pf", "pi", "po",
  "privateuse", "ps", "punct", "punctuation", "s", "sc", "separator", "sk", "sm", "so",
  "spaceseparator", "spacingmark", "symbol", "titlecaseletter", "unassigned", "uppercaseletter",
  "z", "zl", "zp", "zs", "any", "assigned", "ascii"]

/-- The scripts. -/
def scriptNames : List String := [
  "adlam", "adlm", "aghb", "ahom", "anatolianhieroglyphs", "arab", "arabic", "armenian", "armi",
  "armn", "avestan", "avst", "bali", "balinese", "bamu", "bamum", "bass", "bassavah", "batak",
  "batk", "beng", "bengali", "bhaiksuki", "bhks", "bopo", "bopomofo", "brah", "brahmi", "brai",
  "braille", "bugi", "buginese", "buhd", "buhid", "cakm", "canadianaboriginal", "cans", "cari",
  "carian", "caucasianalbanian", "chakma", "cham", "cher", "cherokee", "chorasmian", "chrs",
  "common", "copt", "coptic", "cpmn", "cprt", "cuneiform", "cypriot", "cyprominoan", "cyrillic",
  "cyrl", "deseret", "deva", "devanagari", "diak", "divesakuru", "dogr", "dogra", "dsrt", "dupl",
  "duployan", "egyp", "egyptianhieroglyphs", "elba", "elbasan", "elym", "elymaic", "ethi",
  "ethiopic", "gara", "garay", "geor", "georgian", "glag", "glagolitic", "gong", "gonm", "goth",
  "gothic", "gran", "grantha", "greek", "grek", "gujarati", "gujr", "gukh", "gunjalagondi",
  "gurmukhi", "guru", "gurungkhema", "han", "hang", "hangul", "hani", "hanifirohingya", "hano",
  "hanunoo", "hatr", "hatran", "hebr", "hebrew", "hira", "hiragana", "hluw", "hmng", "hmnp",
  "hung", "imperialaramaic", "inherited", "inscriptionalpahlavi", "inscriptionalparthian", "ital",
  "java", "javanese", "kaithi", "kali", "kana", "kannada", "katakana", "kawi", "kayahli", "khar",
  "kharoshthi", "khitansmallscript", "khmer", "khmr", "khoj", "khojki", "khudawadi", "kiratrai",
  "kits", "knda", "krai", "kthi", "lana", "lao", "laoo", "latin", "latn", "lepc", "lepcha", "limb",
  "limbu", "lina", "linb", "lineara", "linearb", "lisu", "lyci", "lycian", "lydi", "lydian",
  "mahajani", "mahj", "maka", "makasar", "malayalam", "mand", "mandaic", "mani", "manichaean",
  "marc", "marchen", "masaramgondi", "medefaidrin", "medf", "meeteimayek", "mend", "mendekikakui",
  "merc", "mero", "meroiticcursive", "meroitichieroglyphs", "miao", "mlym", "modi", "mong",
  "mongolian", "mro", "mroo", "mtei", "mult", "multani", "myanmar", "mymr", "nabataean", "nagm",
  "nagmundari", "nand", "nandinagari", "narb", "nbat", "newa", "newtailue", "nko", "nkoo", "nshu",
  "nushu", "nyiakengpuachuehmong", "ogam", "ogham", "olchiki", "olck", "oldhungarian", "olditalic",
  "oldnortharabian", "oldpermic", "oldpersian", "oldsogdian", "oldsoutharabian", "oldturkic",
  "olduyghur", "olonal", "onao", "oriya", "orkh", "orya", "osage", "osge", "osma", "osmanya",
  "ougr", "pahawhhmong", "palm", "palmyrene", "pauc", "paucinhau", "perm", "phag", "phagspa",
  "phli", "phlp", "phnx", "phoenician", "plrd", "prti", "psalterpahlavi", "qaac", "qaai", "rejang",
  "rjng", "rohg", "runic", "runr", "samaritan", "samr", "sarb", "saur", "saurashtra", "sgnw",
  "sharada", "shavian", "shaw", "shrd", "sidd", "siddham", "signwriting", "sind", "sinh",
  "sinhala", "sogd", "sogdian", "sogo", "sora", "sorasompeng", "soyo", "soyombo", "sund",
  "sundanese", "sunu", "sunuwar", "sylo", "sylotinagri", "syrc", "syriac", "tagalog", "tagb",
  "tagbanwa", "taile", "taitham", "taiviet", "takr", "takri", "tale", "talu", "tamil", "taml",
  "tang", "tangsa", "tangut", "tavt", "telu", "telugu", "tfng", "tglg", "thaa", "thaana", "thai",
  "tibetan", "tibt", "tifinagh", "tirh", "tirhuta", "tnsa", "todhri", "todr", "toto",
  "tulutigalari", "tutg", "ugar", "ugaritic", "vai", "vaii", "vith", "vithkuqi", "wancho", "wara",
  "warangciti", "wcho", "xpeo", "xsux", "yezi", "yezidi", "yi", "yiii", "zanabazarsquare", "zanb",
  "zinh", "zyyy"]

/-- The versions that first assigned a character. -/
def ageNames : List String := [
  "1.1", "2.0", "2.1", "3.0", "3.1", "3.2", "4.0", "4.1", "5.0", "5.1", "5.2", "6.0", "6.1", "6.2",
  "6.3", "7.0", "8.0", "9.0", "10.0", "11.0", "12.0", "12.1", "13.0", "14.0", "15.0", "15.1",
  "16.0", "v11", "v20", "v21", "v30", "v31", "v32", "v40", "v41", "v50", "v51", "v52", "v60",
  "v61", "v62", "v63", "v70", "v80", "v90", "v100", "v110", "v120", "v121", "v130", "v140", "v150",
  "v151", "v160"]

/-- The values of the property `Grapheme_Cluster_Break`. -/
def graphemeBreakNames : List String := [
  "cn", "control", "cr", "ex", "extend", "l", "lf", "lv", "lvt", "pp", "prepend", "ri",
  "regionalindicator", "sm", "spacingmark", "t", "v", "zwj"]

/-- The values of the property `Word_Break`. -/
def wordBreakNames : List String := [
  "cr", "dq", "doublequote", "ex", "extendnumlet", "extend", "fo", "format", "hl", "hebrewletter",
  "ka", "katakana", "le", "aletter", "lf", "mb", "midnumlet", "ml", "midletter", "mn", "midnum",
  "nl", "newline", "nu", "numeric", "ri", "regionalindicator", "sq", "singlequote", "wsegspace",
  "zwj"]

/-- The values of the property `Sentence_Break`. -/
def sentenceBreakNames : List String := [
  "at", "aterm", "cl", "close", "cr", "ex", "extend", "fo", "format", "le", "oletter", "lf", "lo",
  "lower", "nu", "numeric", "sc", "scontinue", "se", "sep", "sp", "st", "sterm", "up", "upper"]

/-- The form in which names are compared: ASCII letters are lowered, blanks, hyphens, underscores
and characters outside ASCII are dropped, and so is a leading `is` unless only `c` follows it. -/
def normalize (name : List Char) : String :=
  let (rest, hadIs) := match name with
    | i :: s :: rest =>
      if (i = 'i' ∨ i = 'I') ∧ (s = 's' ∨ s = 'S') then (rest, true) else (name, false)
    | _ => (name, false)
  let kept := (rest.filter fun c => c != ' ' && c != '_' && c != '-' && c.toNat < 128).map
    Char.toLower
  if hadIs && kept == ['c'] then "isc" else String.ofList kept

/-- Whether a name alone names a set of characters. -/
def isName (name : List Char) : Bool :=
  let n := normalize name
  n ∈ binaryNames || n ∈ categoryNames || n ∈ scriptNames

/-- Whether a property and a value together name a set of characters. -/
def isValue (property value : List Char) : Bool :=
  let p := normalize property
  let v := normalize value
  if p = "gc" ∨ p = "generalcategory" then v ∈ categoryNames
  else if p = "sc" ∨ p = "script" ∨ p = "scx" ∨ p = "scriptextensions" then v ∈ scriptNames
  else if p = "age" then v ∈ ageNames
  else if p = "gcb" ∨ p = "graphemeclusterbreak" then v ∈ graphemeBreakNames
  else if p = "wb" ∨ p = "wordbreak" then v ∈ wordBreakNames
  else if p = "sb" ∨ p = "sentencebreak" then v ∈ sentenceBreakNames
  else false

/-- Cuts a name at the first `!=`. -/
def cutAtUnequal? : List Char → Option (List Char × List Char)
  | [] => none
  | '!' :: '=' :: cs => some ([], cs)
  | c :: cs => (cutAtUnequal? cs).map fun p => (c :: p.1, p.2)

/-- Cuts a name at the first `sep`. -/
def cutAt? (sep : Char) (name : List Char) : Option (List Char × List Char) :=
  if sep ∈ name then
    some (name.takeWhile (· != sep), (name.dropWhile (· != sep)).drop 1)
  else none

/-- Whether the text between the braces names a set of characters: a property and a value with
`!=`, `:` or `=` between them, or a name alone. -/
def isSet (text : List Char) : Bool :=
  match cutAtUnequal? text with
  | some (p, v) => isValue p v
  | none =>
    match cutAt? ':' text with
    | some (p, v) => isValue p v
    | none =>
      match cutAt? '=' text with
      | some (p, v) => isValue p v
      | none => isName text

example : isSet ['L'] ∧ isSet "sc=Greek".toList ∧ isSet "Foo".toList = false := by decide +kernel

end Property

end Pattern

end YangSchema
