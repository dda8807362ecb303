import FrameEscape.Body.Json
import FrameEscape.Proofs.Json.Members
import FrameEscape.Proofs.Json.RoundTrip

/-!
# Bodies read back

A body is read back from what is written for it, and from every other spelling of it: members may
come in any order and have others beside them, a kind without parts may be a tag with a null under
it, and the shape of an allocation may be missing. `Body.Spelling` says which values these are,
without the reader.
-/

namespace FrameEscape

open Json

/-! ## Ids, offsets and words -/

theorem NodeId.ofJson?_toJson (id : NodeId) : NodeId.ofJson? id.toJson = some id := by
  have hlt : id.index < UInt32.size := id.value.toNat_lt
  have hof : ofNat id.index = id := congrArg NodeId.mk id.value.ofNat_toNat
  simp [ofJson?, toJson, Json.nat, Json.natBelow?, hlt, hof]

theorem NodeId.listOfJson?_listToJson (ids : List NodeId) :
    NodeId.listOfJson? (NodeId.listToJson ids) = some ids :=
  mapM_map NodeId.ofJson?_toJson ids

theorem offsetOfJson?_nat (offset : UInt64) : offsetOfJson? (.nat offset.toNat) = some offset := by
  have hlt : offset.toNat < UInt64.size := offset.toNat_lt
  simp [offsetOfJson?, Json.nat, Json.natBelow?, hlt]

theorem Access.ofJson?_word (access : Access) :
    Access.ofJson? (.str access.word) = some access := by
  cases access <;> rfl

theorem Region.ofJson?_word (region : Region) :
    Region.ofJson? (.str region.word) = some region := by
  cases region <;> rfl

/-! ## Members -/

theorem Json.optionalStr?_of_member {json : Json} {key : String} {s? : Option String}
    (h : json.member? key = some (.ofOption .str s?)) : json.optionalStr? key = some s? := by
  rw [optionalStr?, h]
  cases s? <;> rfl

theorem Json.tagged?_singleton (tag : String) (parts : Json) :
    (obj [(tag, parts)]).tagged? = some (tag, parts) := by
  simp [tagged?, member?]

theorem Json.Extends.fields? {known : List String} {fields members : List (String × Json)}
    (h : Extends known fields members) (hnodup : (fields.map (·.1)).Nodup)
    (hknown : fields.map (·.1) = known) :
    (obj members).fields? known = some (fields.map (·.2)) := by
  subst hknown
  refine mapM_eq_some ?_
  rw [List.forall₂_map_left_iff, List.forall₂_map_right_iff, List.forall₂_same]
  intro field hfield
  exact h.member?_of_mem hnodup (List.mem_map_of_mem hfield) hfield

/-! ## Spellings -/

/-- Spans are objects with their two offsets, and other members that count for nothing. -/
def Span.Spelling (span : Span) (json : Json) : Prop :=
  ∃ members, json = .obj members ∧ Extends ["start", "end"]
    [("start", .nat span.start.toNat), ("end", .nat span.stop.toNat)] members

/-- How expressions may be written. -/
inductive Expr.Spelling : Expr NodeId → Json → Prop where
  | written (expr : Expr NodeId) : Spelling expr expr.toJson
  /-- A kind without parts is a tag with a null under it. -/
  | literal : Spelling .literal (.obj [("Literal", .null)])
  /-- Beside the parts of an expression there may be members that count for nothing. -/
  | extended {expr : Expr NodeId} {kind : String} {fields members : List (String × Json)}
    (hwritten : expr.toJson = .obj [(kind, .obj fields)])
    (hextends : Extends (fields.map (·.1)) fields members) :
    Spelling expr (.obj [(kind, .obj members)])
  /-- The shape of an allocation may be missing. -/
  | shapeless {region : Region} {members : List (String × Json)}
    (hextends : Extends ["region", "shape"] [("region", .str region.word)] members) :
    Spelling (.alloc region none) (.obj [("Alloc", .obj members)])

def Node.Spelling (node : Node) (json : Json) : Prop :=
  ∃ kind span members, node.expr.Spelling kind ∧ node.span.Spelling span ∧ json = .obj members ∧
    Extends ["kind", "span"] [("kind", kind), ("span", span)] members

def Body.Spelling (body : Body) (json : Json) : Prop :=
  ∃ nodes members, List.Forall₂ Node.Spelling body.nodes.toList nodes ∧ json = .obj members ∧
    Extends ["name", "nodes", "root"]
      [("name", .str body.name), ("nodes", .arr nodes), ("root", body.root.toJson)] members

/-! ## Reading spellings -/

theorem Span.ofJson?_of_spelling {span : Span} {json : Json} (h : span.Spelling json) :
    Span.ofJson? json = some span := by
  obtain ⟨members, rfl, hextends⟩ := h
  have hfields := hextends.fields? (by simp) rfl
  simp [Span.ofJson?, hfields, offsetOfJson?_nat]

theorem Expr.nodup_fields {expr : Expr NodeId} {kind : String} {fields : List (String × Json)}
    (h : expr.toJson = .obj [(kind, .obj fields)]) : (fields.map (·.1)).Nodup := by
  cases expr <;> simp [Expr.toJson, NodeId.listToJson] at h
  all_goals
    obtain ⟨-, rfl⟩ := h
    simp

/-- A reader of parts that finds the fields as they are written finds the expression. -/
theorem Expr.ofParts?_of_fields {expr : Expr NodeId} {kind : String}
    {fields : List (String × Json)} {parts : Json}
    (hwritten : expr.toJson = .obj [(kind, .obj fields)])
    (hparts : ∀ key value, (key, value) ∈ fields → parts.member? key = some value) :
    Expr.ofParts? kind parts = some expr := by
  cases expr with
  | literal => cases hwritten
  | var name => simp [toJson] at hwritten
  | block stmts => simp [toJson, NodeId.listToJson] at hwritten
  | alloc region shape =>
    simp only [toJson, obj.injEq, List.cons.injEq, Prod.mk.injEq, and_true] at hwritten
    obtain ⟨rfl, rfl⟩ := hwritten
    have hshape := optionalStr?_of_member (hparts "shape" (ofOption str shape) (by simp))
    have hregion := hparts "region" (str region.word) (by simp)
    simp [ofParts?, hregion, Region.ofJson?_word, hshape]
  | _ =>
    simp only [toJson, obj.injEq, List.cons.injEq, Prod.mk.injEq, and_true] at hwritten
    obtain ⟨rfl, rfl⟩ := hwritten
    simp at hparts
    simp [ofParts?, idMember?, strMember?, str?, idsMember?, accessMember?, hparts,
      NodeId.ofJson?_toJson, NodeId.listOfJson?_listToJson, Access.ofJson?_word]

theorem Expr.ofJson?_tag (kind : String) (parts : Json) :
    Expr.ofJson? (.obj [(kind, parts)]) = Expr.ofParts? kind parts := by
  rw [Expr.ofJson?, tagged?_singleton]
  rfl

theorem Expr.ofJson?_extended {expr : Expr NodeId} {kind : String}
    {fields members : List (String × Json)} (hwritten : expr.toJson = .obj [(kind, .obj fields)])
    (hextends : Extends (fields.map (·.1)) fields members) :
    Expr.ofJson? (.obj [(kind, .obj members)]) = some expr := by
  rw [ofJson?_tag]
  refine ofParts?_of_fields hwritten fun key value hmem => ?_
  exact hextends.member?_of_mem (nodup_fields hwritten) (List.mem_map_of_mem hmem) hmem

theorem Expr.ofJson?_shapeless {region : Region} {members : List (String × Json)}
    (hextends : Extends ["region", "shape"] [("region", .str region.word)] members) :
    Expr.ofJson? (.obj [("Alloc", .obj members)]) = some (.alloc region none) := by
  have hregion : (obj members).member? "region" = some (.str region.word) :=
    hextends.member?_of_mem (by simp) (by simp) (by simp)
  have hshape : (obj members).member? "shape" = none :=
    hextends.member? (by simp) (by simp)
  rw [ofJson?_tag]
  simp [ofParts?, hregion, optionalStr?, hshape, Region.ofJson?_word]

theorem Expr.ofJson?_toJson (expr : Expr NodeId) : Expr.ofJson? expr.toJson = some expr := by
  cases expr with
  | literal => rfl
  | var name =>
    rw [toJson, ofJson?_tag]
    rfl
  | block stmts =>
    rw [toJson, ofJson?_tag]
    simp [ofParts?, NodeId.listOfJson?_listToJson]
  | _ => exact ofJson?_extended rfl (Extends.refl fun _ => List.mem_map_of_mem)

theorem Expr.ofJson?_of_spelling {expr : Expr NodeId} {json : Json} (h : expr.Spelling json) :
    Expr.ofJson? json = some expr := by
  cases h with
  | written => exact ofJson?_toJson expr
  | literal => rfl
  | extended hwritten hextends => exact ofJson?_extended hwritten hextends
  | shapeless hextends => exact ofJson?_shapeless hextends

theorem Node.ofJson?_of_spelling {node : Node} {json : Json} (h : node.Spelling json) :
    Node.ofJson? json = some node := by
  obtain ⟨kind, span, members, hkind, hspan, rfl, hextends⟩ := h
  have hfields := hextends.fields? (by simp) rfl
  simp [Node.ofJson?, hfields, Expr.ofJson?_of_spelling hkind, Span.ofJson?_of_spelling hspan]

theorem Body.ofJson?_of_spelling {body : Body} {json : Json} (h : body.Spelling json) :
    Body.ofJson? json = some body := by
  obtain ⟨nodes, members, hnodes, rfl, hextends⟩ := h
  have hfields := hextends.fields? (by simp) rfl
  have hread : nodes.mapM Node.ofJson? = some body.nodes.toList := by
    refine mapM_eq_some (List.Forall₂.flip (hnodes.imp fun _ _ => ?_))
    exact Node.ofJson?_of_spelling
  simp [Body.ofJson?, hfields, str?, arr?, hread, NodeId.ofJson?_toJson]

/-! ## Writing is one of the spellings -/

theorem Span.spelling_toJson (span : Span) : span.Spelling span.toJson :=
  ⟨_, rfl, Extends.refl (by simp)⟩

theorem Node.spelling_toJson (node : Node) : node.Spelling node.toJson :=
  ⟨_, _, _, .written _, node.span.spelling_toJson, rfl, Extends.refl (by simp)⟩

theorem Body.spelling_toJson (body : Body) : body.Spelling body.toJson := by
  refine ⟨_, _, ?_, rfl, Extends.refl (by simp)⟩
  rw [List.forall₂_map_right_iff, List.forall₂_same]
  exact fun node _ => node.spelling_toJson

/-- Reading undoes writing, also through a text, and does not see how a body is spelled. -/
theorem Body.read_back (body : Body) :
    Body.ofJson? body.toJson = some body ∧
      (Json.ofText? body.toJson.compact).bind Body.ofJson? = some body ∧
      (Json.ofText? body.toJson.pretty).bind Body.ofJson? = some body ∧
      ∀ json, body.Spelling json → Body.ofJson? json = some body := by
  have hwritten : Body.ofJson? body.toJson = some body := ofJson?_of_spelling body.spelling_toJson
  refine ⟨hwritten, ?_, ?_, fun json => ofJson?_of_spelling⟩
  · rw [ofText?_compact, Option.bind_some, hwritten]
  · rw [ofText?_pretty, Option.bind_some, hwritten]

namespace Body

/-- A return of a buffer, behind a statement that nothing needs. -/
def buffer : Body :=
  ⟨"buffer", #[⟨.literal, .zero⟩, ⟨.alloc .stack none, ⟨3, 8⟩⟩, ⟨.ret ⟨1⟩ .ref, .zero⟩], ⟨2⟩⟩

/-- The same body, with no part of it as it is written. -/
def bufferSpelled : Json :=
  .obj [("root", .nat 2), ("comment", .str ""), ("name", .str "buffer"), ("nodes", .arr [
    .obj [("kind", .obj [("Literal", .null)]), ("span", Span.zero.toJson)],
    .obj [("kind", .obj [("Alloc", .obj [("size", .nat 4), ("region", .str "Stack")])]),
      ("line", .nat 1), ("span", .obj [("end", .nat 8), ("line", .nat 1), ("start", .nat 3)])],
    .obj [("span", Span.zero.toJson),
      ("kind",
        .obj [("Return", .obj [("mode", .str "Ref"), ("size", .null), ("value", .nat 1)])])]])]

theorem spelling_buffer : buffer.Spelling bufferSpelled := by
  have hliteral : Node.Spelling ⟨.literal, .zero⟩
      (.obj [("kind", .obj [("Literal", .null)]), ("span", Span.zero.toJson)]) :=
    ⟨_, _, _, .literal, Span.spelling_toJson _, rfl, List.Perm.refl _⟩
  have hspan : Span.Spelling ⟨3, 8⟩
      (.obj [("end", .nat 8), ("line", .nat 1), ("start", .nat 3)]) :=
    ⟨_, rfl, List.Perm.swap _ _ _⟩
  have halloc : Expr.Spelling (.alloc .stack none)
      (.obj [("Alloc", .obj [("size", .nat 4), ("region", .str "Stack")])]) :=
    .shapeless (List.Perm.refl _)
  have hret : Expr.Spelling (.ret ⟨1⟩ .ref)
      (.obj [("Return", .obj [("mode", .str "Ref"), ("size", .null), ("value", .nat 1)])]) :=
    .extended rfl (List.Perm.swap _ _ _)
  refine ⟨_, _, .cons hliteral (.cons ?_ (.cons ?_ .nil)), rfl,
    (List.Perm.swap _ _ _).trans (List.Perm.cons _ (List.Perm.swap _ _ _))⟩
  · exact ⟨_, _, _, halloc, hspan, rfl, List.Perm.refl _⟩
  · exact ⟨_, _, _, hret, Span.spelling_toJson _, rfl, List.Perm.swap _ _ _⟩

theorem read_back_buffer :
    buffer.Spelling bufferSpelled ∧ Body.ofJson? bufferSpelled = some buffer :=
  ⟨spelling_buffer, (read_back buffer).2.2.2 _ spelling_buffer⟩

end Body

end FrameEscape
