import EntityQuery.Command
import EntityQuery.Proofs.Configuration.Written
import EntityQuery.Proofs.Json.Derived
import EntityQuery.Proofs.Reading.Known

/-!
# Proofs/Configuration/Version — the version of a document comes before its shape

The text of a configuration is looked at twice: for its version, as a document whose repeated keys
are merged, and then as a record in which no key may be repeated.  The first look sees the version
that stands last (`Json.get?_settle`), and the second is not taken unless that is the current one
(`Configuration.parse_of_spells`).  The record passes over keys that it does not know, so they have
no part in either look (`Configuration.parse_congr`).

`version_before_shape` puts the verdicts together.  They are about documents within the limit: what
is nested deeper is a document of the grammar, but is not read as one (`deepArrays_not_read`).
-/

namespace EntityQuery

open Json.Grammar (Spells)

/-! ## Keys that stand last -/

namespace Json

/-- The value of a key of an object where the key stands last. -/
def last? (value : Json) (key : String) : Option Json :=
  match value with
  | .obj members => Entries.get? members.reverse key
  | _ => none

/-- Merging repeated keys leaves the values that stand last. -/
theorem get?_settle (value : Json) (key : String) :
    value.settle.get? key = (value.last? key).map settle := by
  cases value with
  | obj members =>
    rw [settle, get?, Entries.get?_ofList, settleMembers_eq_mapValues, Entries.mapValues,
      ← List.map_reverse]
    exact Entries.get?_mapValues settle members.reverse key
  | _ => rfl

/-- Merging repeated keys makes no text. -/
theorem settle_eq_str {value : Json} {text : String} :
    value.settle = .str text ↔ value = .str text := by
  cases value <;> simp [settle]

/-- What other keys hold does not matter to a key. -/
theorem last?_filter {test : String → Bool} {key : String} (h : test key = true)
    (members : List (String × Json)) :
    last? (.obj (members.filter fun member => test member.1)) key = last? (.obj members) key := by
  rw [last?, last?, ← List.filter_reverse]
  exact Entries.get?_filter h members.reverse

end Json

namespace Configuration

/-! ## Texts that spell no document -/

/-- A text that spells nothing within the limit is refused at some place. -/
theorem parse_eq_notJson {text : String}
    (h : ∀ value, Spells text value → maxDepth < value.nesting) (file : String) :
    ∃ line column, parse file text = .error (.notJson file line column) := by
  cases hvalue : (Document.ofText text).value with
  | ok merged =>
    obtain ⟨value, hspells, hnesting, -⟩ := Json.parse_eq_ok.mp hvalue
    exact absurd hnesting (Nat.not_le.mpr (h value hspells))
  | error fault =>
    rw [parse, hvalue]
    exact ⟨_, _, rfl⟩

/-! ## The version -/

variable {text : String} {value : Json}

/-- A document within the limit is looked at for its version, and then as a record. -/
theorem parse_of_spells (h : Spells text value) (hnesting : value.nesting ≤ maxDepth)
    (file : String) :
    parse file text = checkVersion value.settle >>= fun _ =>
      (record.read .text {} (Node.ofJson value)).mapError (.misfit file) := by
  have hvalue : (Document.ofText text).value = .ok value.settle :=
    Json.parse_eq_ok.mpr ⟨value, h, hnesting, rfl⟩
  rw [parse, hvalue, Document.ofText_eq_ofJson h hnesting, Document.read_ofNode]
  simp only [Except.mapError, bind, Except.bind]
  cases record.read .text {} (Node.ofJson value) <;> rfl

/-- A value without a version is refused as such. -/
theorem checkVersion_missing (h : value.last? "version" = none) :
    checkVersion value.settle = .error (.unsupportedVersion "<missing>") := by
  rw [checkVersion, Json.get?_settle, h]
  rfl

theorem checkVersion_current (h : value.last? "version" = some (.str currentVersion)) :
    checkVersion value.settle = .ok () := by
  rw [checkVersion, Json.get?_settle, h]
  rfl

/-- A version that is not the current one is refused with its text. -/
theorem checkVersion_other {version : Json} (h : value.last? "version" = some version)
    (hversion : version ≠ .str currentVersion) :
    checkVersion value.settle = .error (.unsupportedVersion version.settle.compact) := by
  rw [checkVersion, Json.get?_settle, h, Option.map_some]
  have hne := mt Json.settle_eq_str.mp hversion
  cases hsettle : version.settle with
  | str text =>
    rw [hsettle, Json.str.injEq] at hne
    exact if_neg hne
  | _ => rfl

/-! ## The shape -/

/-- The keys of a configuration. -/
def keys : List String := ["version", "dialect", "entities"]

/-- The members that have keys of a configuration. -/
def ownMembers (members : List (String × Json)) : List (String × Json) :=
  members.filter fun member => keys.contains member.1

theorem isSome_field?_record (name : String) :
    (record.field? name).isSome = keys.contains name :=
  Record.isSome_field? name

/-- Only the members that have keys of a configuration are read. -/
theorem read_ownMembers (members : List (String × Json)) :
    record.read .text {} (Node.ofJson (.obj members))
      = record.read .text {} (Node.ofJson (.obj (ownMembers members))) := by
  rw [Record.read_filter rfl]
  simp only [isSome_field?_record, ownMembers]

/-- A key of a configuration that stands twice is refused. -/
theorem exists_read_eq_error {members : List (String × Json)} {key : String} (hkey : key ∈ keys)
    (hcount : 1 < (Entries.names members).count key) :
    ∃ complaint, record.read .text {} (Node.ofJson (.obj members)) = .error complaint := by
  cases hread : record.read .text {} (Node.ofJson (.obj members)) with
  | error complaint => exact ⟨complaint, rfl⟩
  | ok configuration =>
    have hnodup := Record.nodup_known_of_read hread
    have hknown : (record.field? key).isSome = true := by
      rw [isSome_field?_record, List.contains_iff_mem]
      exact hkey
    have honce : (record.known members).count key ≤ 1 := List.nodup_iff_count.mp hnodup key
    rw [Record.known, List.count_filter (p := fun name => (record.field? name).isSome) hknown]
      at honce
    exact absurd honce (Nat.not_le.mpr hcount)

/-- **Other keys do not matter**: documents that agree about the keys of a configuration are read
alike, whatever else they hold. -/
theorem parse_congr {text other : String} {members changed : List (String × Json)}
    (h : Spells text (.obj members)) (hnesting : Json.nesting (.obj members) ≤ maxDepth)
    (hother : Spells other (.obj changed)) (hothers : Json.nesting (.obj changed) ≤ maxDepth)
    (hown : ownMembers changed = ownMembers members) (file : String) :
    parse file other = parse file text := by
  have hversion : checkVersion (Json.obj changed).settle
      = checkVersion (Json.obj members).settle := by
    have htest : keys.contains "version" = true := rfl
    have hlast : (Json.obj changed).last? "version" = (Json.obj members).last? "version" := by
      rw [← Json.last?_filter htest, ← Json.last?_filter htest members]
      exact congrArg (fun own => Json.last? (.obj own) "version") hown
    rw [checkVersion, checkVersion, Json.get?_settle, Json.get?_settle, hlast]
  rw [parse_of_spells hother hothers, parse_of_spells h hnesting, hversion,
    read_ownMembers changed, read_ownMembers members, hown]

end Configuration

/-! ## The verdicts -/

namespace CommandContext

variable {context : CommandContext} {tree : FileTree} {text : String}

theorem readConfiguration_of_read (h : tree.read context.configurationFile = .ok text) :
    context.readConfiguration tree = Configuration.parse context.configurationFile text := by
  rw [readConfiguration, h]

/-- The shape of a file of the current version does not fit. -/
def IsMisfit (context : CommandContext) (tree : FileTree) : Prop :=
  ∃ complaint, context.readConfiguration tree
    = .error (.misfit context.configurationFile complaint)

end CommandContext

open EntityQuery.Configuration in
/-- **The version of a document comes before its shape.**  A file that spells no document within the
limit is no JSON.  In any other the version that stands last decides, whatever else there is: none,
or another than the current one, is not supported.  With the current one either the shape does not
fit, as when a key of a configuration is repeated, or there is a configuration of that version.  And
a document that agrees about these keys has the same verdict. -/
theorem version_before_shape {context : CommandContext} {tree : FileTree} {text : String}
    (h : tree.read context.configurationFile = .ok text) :
    ((∀ value, Spells text value → maxDepth < value.nesting) → ∃ line column,
      context.readConfiguration tree = .error (.notJson context.configurationFile line column))
    ∧ ∀ value, Spells text value → value.nesting ≤ maxDepth →
      (value.last? "version" = none →
        context.readConfiguration tree = .error (.unsupportedVersion "<missing>"))
      ∧ (∀ version, value.last? "version" = some version → version ≠ .str "1" →
        context.readConfiguration tree = .error (.unsupportedVersion version.settle.compact))
      ∧ (value.last? "version" = some (.str "1") →
        (context.IsMisfit tree ∨ ∃ configuration, context.readConfiguration tree = .ok configuration
          ∧ configuration.toJson.get? "version" = some (.str "1"))
        ∧ ∀ members key, value = .obj members → key ∈ keys →
          1 < (Entries.names members).count key → context.IsMisfit tree)
      ∧ ∀ members, value = .obj members → ∀ (other : FileTree) (changedText : String) changed,
        other.read context.configurationFile = .ok changedText →
          Spells changedText (.obj changed) → Json.nesting (.obj changed) ≤ maxDepth →
            ownMembers changed = ownMembers members →
              context.readConfiguration other = context.readConfiguration tree := by
  rw [CommandContext.IsMisfit, CommandContext.readConfiguration_of_read h]
  refine ⟨fun hnone => parse_eq_notJson hnone _, fun value hspells hnesting => ?_⟩
  have hparse := parse_of_spells hspells hnesting context.configurationFile
  refine ⟨fun hversion => ?_, fun version hversion hother => ?_, fun hversion => ⟨?_, ?_⟩, ?_⟩
  · rw [hparse, checkVersion_missing hversion]
    rfl
  · rw [hparse, checkVersion_other hversion hother]
    rfl
  · rw [hparse, checkVersion_current hversion]
    cases record.read .text {} (Node.ofJson value) with
    | error complaint => exact .inl ⟨complaint, rfl⟩
    | ok configuration => exact .inr ⟨configuration, rfl, rfl⟩
  · rintro members key rfl hkey hcount
    obtain ⟨complaint, hcomplaint⟩ := exists_read_eq_error hkey hcount
    rw [hparse, checkVersion_current hversion, hcomplaint]
    exact ⟨complaint, rfl⟩
  · rintro members rfl other changedText changed hread hchanged hchangedNesting hown
    rw [CommandContext.readConfiguration_of_read hread]
    exact parse_congr hspells hnesting hchanged hchangedNesting hown _

/-! ## Documents in a directory -/

/-- A tree that holds a text as the configuration in the directory `conf`. -/
def treeOf (text : String) : FileTree :=
  ⟨[["conf"]], [(["conf", "configuration.json"], text)]⟩

theorem read_treeOf (text : String) :
    (treeOf text).read (CommandContext.configurationFile ⟨"conf", none⟩) = .ok text := rfl

/-- Entities that are none, and another version after the current one. -/
def laterVersion : Json :=
  .obj [("entities", .null), ("version", .str "1"), ("version", .arr [.str "2"])]

/-- The current version, and a key that stands twice. -/
def repeatedDialect : Json :=
  .obj [("version", .str "1"), ("dialect", .obj []), ("dialect", .obj [])]

/-- The current version alone. -/
def bareVersion : Json :=
  .obj [("version", .str "1")]

/-- The current version between remarks. -/
def remarkedVersion : Json :=
  .obj [("", .null), ("version", .str "1"), ("remark", .arr []), ("", .bool true)]

/-- An empty file holds no document, a last version that is a list is not supported, a repeated
dialect is a misfit, and remarks change nothing. -/
theorem laterVersion_unsupported :
    (∃ line column, CommandContext.readConfiguration ⟨"conf", none⟩ (treeOf "")
      = .error (.notJson "conf/configuration.json" line column))
    ∧ CommandContext.readConfiguration ⟨"conf", none⟩ (treeOf laterVersion.prettyLines)
      = .error (.unsupportedVersion "[\"2\"]")
    ∧ CommandContext.IsMisfit ⟨"conf", none⟩ (treeOf repeatedDialect.prettyLines)
    ∧ CommandContext.readConfiguration ⟨"conf", none⟩ (treeOf remarkedVersion.prettyLines)
      = CommandContext.readConfiguration ⟨"conf", none⟩ (treeOf bareVersion.prettyLines) := by
  have hempty : ∀ value, Spells "" value → maxDepth < value.nesting := by
    rintro value ⟨rest, h, -⟩
    cases h with
    | text lexed | scalar lexed =>
      obtain ⟨c, after, heq, -⟩ := lexed
      exact nomatch heq
  have hlater := (version_before_shape (read_treeOf laterVersion.prettyLines)).2 laterVersion
    (Json.spells_prettyLines ⟨trivial, trivial, ⟨trivial, trivial⟩, trivial⟩) (by decide)
  have hrepeated := (version_before_shape (read_treeOf repeatedDialect.prettyLines)).2
    repeatedDialect (Json.spells_prettyLines ⟨trivial, trivial, trivial, trivial⟩) (by decide)
  have hbare := (version_before_shape (read_treeOf bareVersion.prettyLines)).2 bareVersion
    (Json.spells_prettyLines ⟨trivial, trivial⟩) (by decide)
  have hremarked : Spells remarkedVersion.prettyLines remarkedVersion :=
    Json.spells_prettyLines ⟨trivial, trivial, trivial, trivial, trivial⟩
  refine ⟨(version_before_shape (read_treeOf "")).1 hempty, ?_, ?_, ?_⟩
  · exact hlater.2.1 (.arr [.str "2"]) rfl nofun
  · exact (hrepeated.2.2.1 rfl).2 _ "dialect" rfl (by decide) (by decide)
  · exact hbare.2.2.2 _ rfl _ _ _ (read_treeOf _) hremarked (by decide) rfl

/-! ## Nesting beyond the limit -/

/-- Arrays in each other, the innermost one empty. -/
def Json.nestedArrays : Nat → Json
  | 0 => .arr []
  | depth + 1 => .arr [nestedArrays depth]

namespace Json.Grammar

/-- Arrays in arrays are values, however deep. -/
theorem value_nestedArrays : ∀ (depth : Nat) (rest : List Char),
    Value (List.replicate (depth + 1) '[' ++ (List.replicate (depth + 1) ']' ++ rest))
      (nestedArrays depth) rest
  | 0, _ => .emptyArr (Blanks.refl _)
  | depth + 1, rest => by
      have hinner := value_nestedArrays depth (']' :: rest)
      rw [List.replicate_succ' (n := depth + 1) (a := ']'), List.append_assoc,
        List.replicate_succ (n := depth + 1), List.cons_append]
      exact .arr (.one hinner (Blanks.refl _))

/-- What begins with opening brackets is nested as deep as there are brackets. -/
theorem le_nesting_of_value {depth : Nat} {cs rest : List Char} {value : Json}
    (h : Value (List.replicate depth '[' ++ cs) value rest) : depth ≤ value.nesting := by
  induction depth generalizing value rest with
  | zero => exact Nat.zero_le _
  | succ depth ih =>
    rw [List.replicate_succ, List.cons_append] at h
    cases h with
    | blank isBlank => exact nomatch isBlank
    | text lexed | scalar lexed =>
      obtain ⟨c, after, heq, hscan⟩ := lexed
      obtain ⟨rfl, rfl⟩ := List.cons.inj heq
      exact nomatch hscan
    | emptyArr gap =>
      cases depth with
      | zero => exact Nat.le_refl 1
      | succ depth =>
        obtain ⟨_ | ⟨c, gap⟩, hblank, heq⟩ := gap
        · exact absurd (List.cons.inj heq).1 (by decide)
        · obtain ⟨rfl, -⟩ := List.cons.inj heq
          exact absurd (hblank '[' List.mem_cons_self) (by decide)
    | arr inner =>
      cases inner with
      | one first | more first =>
        exact Nat.succ_le_succ (Nat.le_trans (ih first) (Nat.le_max_left _ _))

end Json.Grammar

/-- The text of arrays nested one deeper than the limit. -/
def deepArrays : String :=
  String.ofList (List.replicate (maxDepth + 1) '[' ++ List.replicate (maxDepth + 1) ']')

/-- The text spells a value that is no object, and is refused as no JSON instead of for its
version. -/
theorem deepArrays_not_read : ∃ value line column, Spells deepArrays value ∧ value.isObj = false
    ∧ (treeOf deepArrays).read (CommandContext.configurationFile ⟨"conf", none⟩) = .ok deepArrays
    ∧ CommandContext.readConfiguration ⟨"conf", none⟩ (treeOf deepArrays)
      = .error (.notJson "conf/configuration.json" line column) := by
  have hspells : Spells deepArrays (Json.nestedArrays maxDepth) := by
    have h := Json.Grammar.value_nestedArrays maxDepth []
    rw [List.append_nil] at h
    exact ⟨[], by rwa [deepArrays, String.toList_ofList], Json.Grammar.Blanks.refl []⟩
  have hdeep : ∀ value, Spells deepArrays value → maxDepth < value.nesting := by
    rintro value ⟨rest, h, -⟩
    rw [deepArrays, String.toList_ofList] at h
    exact Json.Grammar.le_nesting_of_value h
  obtain ⟨line, column, h⟩ := Configuration.parse_eq_notJson hdeep "conf/configuration.json"
  exact ⟨_, line, column, hspells, rfl, read_treeOf deepArrays, h⟩

end EntityQuery
