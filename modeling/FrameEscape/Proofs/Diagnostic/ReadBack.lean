import FrameEscape.Diagnostic.Json
import FrameEscape.Proofs.Body.Spelling

/-!
# Diagnostics read back

Nothing is lost when diagnostics are written as JSON: a reader gets the name of the body and all
parts of each diagnostic back from the text. What a diagnostic does not have is a member that is
missing, and empty notes are missing notes. The category and the location are not read, as they
follow from the code, and from the labels and the source.
-/

namespace FrameEscape

open Json

/-! ## Reading -/

/-- The severity that a word stands for. -/
def Severity.ofWord? (word : String) : Option Severity :=
  [error, warning, note].find? (·.word == word)

/-- What a member is read as, or that there is no such member. The outer option is none if the
member cannot be read. -/
def Json.ifMember? {α : Type} (json : Json) (key : String) (read : Json → Option α) :
    Option (Option α) :=
  match json.member? key with
  | none => some none
  | some value => (read value).map some

/-- The texts of an array. -/
def Json.strs? (json : Json) : Option (List String) := do (← json.arr?).mapM str?

/-- The level that a text names. -/
def Json.level? (json : Json) : Option Level := do Level.ofName? (← json.str?)

/-- Whether a role is that of a primary label. -/
def Label.isPrimaryOfRole? (role : String) : Option Bool :=
  if role = "primary" then some true else if role = "secondary" then some false else none

def Label.ofJson? (json : Json) : Option Label := do
  let isPrimary ← Label.isPrimaryOfRole? (← json.strMember? "role")
  let message ← json.strMember? "message"
  let start ← offsetOfJson? (← json.member? "start")
  let stop ← offsetOfJson? (← json.member? "end")
  some ⟨⟨start, stop⟩, isPrimary, message⟩

/-- Two levels, or none of them. -/
def LevelPair.ofLevels? : Option Level → Option Level → Option (Option LevelPair)
  | some required, some actual => some (some ⟨required, actual⟩)
  | none, none => some none
  | _, _ => none

def Diagnostic.ofJson? (json : Json) : Option Diagnostic := do
  let severity ← Severity.ofWord? (← json.strMember? "severity")
  let code ← json.ifMember? "code" str?
  let message ← json.strMember? "message"
  let path ← json.ifMember? "path" str?
  let required ← json.ifMember? "required_level" level?
  let actual ← json.ifMember? "actual_level" level?
  let levels ← LevelPair.ofLevels? required actual
  let labels ← (← (← json.member? "labels").arr?).mapM Label.ofJson?
  let notes ← json.ifMember? "notes" strs?
  let help ← json.ifMember? "help" str?
  some ⟨severity, code, message, labels, path, levels, notes.getD [], help⟩

/-- The name of the body and its diagnostics. -/
def Batch.contents? (json : Json) : Option (String × List Diagnostic) := do
  let body ← json.strMember? "body"
  let diagnostics ← (← (← json.member? "diagnostics").arr?).mapM Diagnostic.ofJson?
  some (body, diagnostics)

/-! ## Members that may be missing -/

@[simp]
theorem Json.member?_optionalMember {α : Type} (key key' : String) (toJson : α → Json)
    (a? : Option α) :
    (obj (optionalMember key' toJson a?)).member? key =
      if key = key' then a?.map toJson else none := by
  cases a? with
  | none => simp [optionalMember, member?_nil]
  | some a => simp [optionalMember, member?_cons, member?_nil]

@[simp]
theorem Json.member?_ite_nil (key : String) (p : Prop) [Decidable p]
    (members : List (String × Json)) :
    (obj (if p then [] else members)).member? key =
      if p then none else (obj members).member? key := by
  split <;> rfl

theorem Json.ifMember?_of_map {α : Type} {json : Json} {key : String} {read : Json → Option α}
    {a? : Option α} (toJson : α → Json) (hread : ∀ a, read (toJson a) = some a)
    (h : json.member? key = a?.map toJson) : json.ifMember? key read = some a? := by
  rw [ifMember?, h]
  cases a? with
  | none => rfl
  | some a => simp [hread]

/-! ## The parts -/

theorem Severity.ofWord?_word (severity : Severity) :
    Severity.ofWord? severity.word = some severity := by
  cases severity <;> decide

theorem Label.ofJson?_toJson (label : Label) : Label.ofJson? label.toJson = some label := by
  obtain ⟨span, isPrimary, message⟩ := label
  cases isPrimary <;>
    simp [Label.ofJson?, Label.toJson, strMember?, str?, offsetOfJson?_nat, isPrimaryOfRole?]

theorem LevelPair.ofLevels?_map (levels : Option LevelPair) :
    LevelPair.ofLevels? (levels.map (·.required)) (levels.map (·.actual)) = some levels := by
  cases levels <;> rfl

theorem Diagnostic.ofJson?_toJson (d : Diagnostic) (index : LineIndex) (source : String) :
    Diagnostic.ofJson? (d.toJson index source) = some d := by
  generalize hjson : d.toJson index source = json
  have hseverity : json.strMember? "severity" = some d.severity.word := by
    simp [← hjson, toJson, strMember?, str?]
  have hmessage : json.strMember? "message" = some d.message := by
    simp [← hjson, toJson, strMember?, str?]
  have hlabels : json.member? "labels" = some (.arr (d.labels.map Label.toJson)) := by
    simp [← hjson, toJson]
  have hcode : json.ifMember? "code" str? = some d.code :=
    ifMember?_of_map str (fun _ => rfl) (by simp [← hjson, toJson])
  have hpath : json.ifMember? "path" str? = some d.path :=
    ifMember?_of_map str (fun _ => rfl) (by simp [← hjson, toJson])
  have hhelp : json.ifMember? "help" str? = some d.help :=
    ifMember?_of_map str (fun _ => rfl) (by simp [← hjson, toJson])
  have hrequired : json.ifMember? "required_level" level? =
      some (d.levels.map (·.required)) :=
    ifMember?_of_map (str ·.name) Level.ofName?_name (by simp [← hjson, toJson, Function.comp_def])
  have hactual : json.ifMember? "actual_level" level? =
      some (d.levels.map (·.actual)) :=
    ifMember?_of_map (str ·.name) Level.ofName?_name (by simp [← hjson, toJson, Function.comp_def])
  have hmember : json.member? "notes" =
      if d.notes.isEmpty then none else some (.arr (d.notes.map str)) := by
    simp [← hjson, toJson]
  have hnotes : json.ifMember? "notes" strs? =
      some (if d.notes.isEmpty then none else some d.notes) := by
    refine ifMember?_of_map (fun notes => .arr (notes.map str)) (mapM_map fun _ => rfl) ?_
    rw [hmember, apply_ite (Option.map _)]
    rfl
  have hall : (if d.notes.isEmpty then none else some d.notes).getD [] = d.notes := by
    cases d.notes <;> rfl
  simp only [ofJson?, hseverity, hcode, hmessage, hpath, hrequired, hactual, hlabels, hnotes, hhelp,
    Option.bind_eq_bind, Option.bind_some, Severity.ofWord?_word, LevelPair.ofLevels?_map, arr?,
    mapM_map Label.ofJson?_toJson, hall]

theorem Batch.contents?_toJson (batch : Batch) :
    Batch.contents? batch.toJson = some (batch.body, batch.diagnostics) := by
  have hread := mapM_map (fun d => Diagnostic.ofJson?_toJson d (.ofText batch.source) batch.source)
  simp [contents?, toJson, strMember?, str?, arr?, hread]

/-- A batch is written as one JSON text, from which the name of the body and the diagnostics are
read back as they are. -/
theorem Batch.text_read_back (batch : Batch) :
    Json.ofText? batch.toText = some batch.toJson ∧
      (Json.ofText? batch.toText).bind Batch.contents? = some (batch.body, batch.diagnostics) := by
  have htext : Json.ofText? batch.toText = some batch.toJson := ofText?_pretty _
  refine ⟨htext, ?_⟩
  rw [htext, Option.bind_some, contents?_toJson]

end FrameEscape
