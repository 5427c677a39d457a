import Mathlib.Data.List.Nodup
import HelixSync.Lib.ParentChains
import HelixSync.Server.Model

/-!
# The contents of a restore point

A restore point holds a bookmark tree as the list of its nodes. A decrypted point is checked
before it is used (`validatePoint`, `extension/src/restore-points/format.ts`): ids are
UUIDs, none is that of a built-in root or occurs twice, and the parent of a node is a root or
an earlier node. `HelixSync.Client.IsPoint` says the same of the list, and
`HelixSync.Client.isPoint_of_validateNodes` that the check establishes it; since a node comes
after its parent every node then comes to a root (`HelixSync.Client.IsPoint.rooted`).

A JSON number is held as the text JavaScript prints it as. Which strings are dates is left
open, since `Date.parse` accepts more than its standard says.
-/

namespace HelixSync

namespace Client

open ParentChains

/-! ### Points -/

/-- The built-in folders (`ROOT_OBJECT_IDS`), in the order of their ids in the browser. -/
def rootIds : List String :=
  ["00000000-0000-7000-8000-000000000000", "00000000-0000-7000-8000-000000000001",
    "00000000-0000-7000-8000-000000000002", "00000000-0000-7000-8000-000000000003"]

/-- The kind of a node: `b` or `f`. -/
inductive NodeKind where
  | bookmark
  | folder
  deriving DecidableEq

/-- `PointNode`: object id, kind, title, URL, parent and position. -/
structure PointNode where
  o : String
  k : NodeKind
  t : String
  u : Option String
  p : String
  x : String
  deriving DecidableEq

/-- `PointPlaintext`. -/
structure PointPlaintext where
  createdAt : String
  deviceId : String
  kind : String
  nodes : List PointNode

/-- `POINT_VERSION`, as a number is printed. -/
def pointVersion : String := "1"

/-- `KINDS`. -/
def pointKinds : List String :=
  ["manual", "scheduled", "pre_restore", "pre_import", "pre_resync", "mass_delete"]

/-- `UnreadableRestorePointError` and `UnsupportedRestorePointVersionError`. -/
inductive PointError where
  | unreadable (reason : String)
  | unsupportedVersion (version : String)
  deriving DecidableEq

/-! ### Validation -/

/-- The digits the pattern of a UUID allows: hexadecimal ones, of either case. -/
def isHexDigit (c : Char) : Bool :=
  ('0' ≤ c && c ≤ '9') || ('a' ≤ c && c ≤ 'f') || ('A' ≤ c && c ≤ 'F')

/-- `UUID`: groups of 8, 4, 4, 4 and 12 digits with hyphens between them. -/
def isUuid (text : String) : Bool :=
  let chars := text.toList
  chars.length = 36 && chars.zipIdx.all fun (c, i) =>
    if i = 8 ∨ i = 13 ∨ i = 18 ∨ i = 23 then c = '-' else isHexDigit c

/-- A field that is a string. -/
def stringField (value : Json) (name : String) : Option String :=
  match value.get? name with
  | some (.string text) => some text
  | _ => none

/-- `typeof value === "object" && value !== null`. -/
def isObject : Json → Bool
  | .object _ => true
  | .array _ => true
  | _ => false

/-- `fail` unless a check succeeds. -/
def demand (check : Bool) (reason : String) : Except PointError Unit :=
  if check then .ok () else .error (.unreadable reason)

/-- `fail` unless there is a value. -/
def demandSome {α : Type} (value : Option α) (reason : String) : Except PointError α :=
  match value with
  | some value => .ok value
  | none => .error (.unreadable reason)

/-- The kind a node is given. -/
def nodeKind (raw : Json) : Option NodeKind :=
  match stringField raw "k" with
  | some "b" => some .bookmark
  | some "f" => some .folder
  | _ => none

/-- The check of `u`: bookmarks have one, folders do not. -/
def validateUrl (raw : Json) : NodeKind → Except PointError (Option String)
  | .bookmark => some <$> demandSome (stringField raw "u") "bookmark without a url"
  | .folder => do
    demand (raw.get? "u").isNone "folder with a url"
    pure none

/-- One round of the loop of `validatePoint`. -/
def validateNode (seen : List String) (raw : Json) : Except PointError PointNode := do
  demand (isObject raw) "bad node"
  let o ← demandSome (stringField raw "o") "bad node id"
  demand (isUuid o) "bad node id"
  demand (o ∉ rootIds ∧ o ∉ seen) "duplicate or root node"
  let k ← demandSome (nodeKind raw) "bad node kind"
  let t ← demandSome (stringField raw "t") "bad title"
  let x ← demandSome (stringField raw "x") "bad position"
  demand (x ≠ "") "bad position"
  let p ← demandSome (stringField raw "p") "bad parent"
  demand (p ∈ rootIds ∨ p ∈ seen) "bad parent"
  let u ← validateUrl raw k
  pure { o, k, t, u, p, x }

/-- The loop of `validatePoint`. -/
def validateNodes (seen : List String) : List Json → Except PointError (List PointNode)
  | [] => pure []
  | raw :: rest => do
    let node ← validateNode seen raw
    let nodes ← validateNodes (node.o :: seen) rest
    pure (node :: nodes)

/-- The check of `v`. -/
def validateVersion (value : Json) : Except PointError Unit :=
  match value.get? "v" with
  | some (.number version) =>
    if version = pointVersion then .ok () else .error (.unsupportedVersion version)
  | _ => .error (.unreadable "missing version")

/-- The elements of an array. -/
def elements : Json → Option (List Json)
  | .array items => some items
  | _ => none

/-- `validatePoint`. -/
def validatePoint (isDate : String → Bool) (value : Json) : Except PointError PointPlaintext := do
  demand (isObject value) "not an object"
  validateVersion value
  let createdAt ← demandSome (stringField value "createdAt") "bad date"
  demand (isDate createdAt) "bad date"
  let deviceId ← demandSome (stringField value "deviceId") "bad device"
  let kind ← demandSome (stringField value "kind") "bad kind"
  demand (kind ∈ pointKinds) "bad kind"
  let items ← demandSome ((value.get? "nodes").bind elements) "no nodes"
  let nodes ← validateNodes [] items
  pure { createdAt, deviceId, kind, nodes }

/-! ### What the checks establish -/

/-- What the checks demand of a node that comes after some others. -/
structure IsPointNode (earlier : List String) (node : PointNode) : Prop where
  uuid : isUuid node.o = true
  notRoot : node.o ∉ rootIds
  fresh : node.o ∉ earlier
  position : node.x ≠ ""
  parent : node.p ∈ rootIds ∨ node.p ∈ earlier
  url : node.u.isSome ↔ node.k = .bookmark

/-- A tree as a restore point holds it: **ids are distinct, and the parent of a node is a root
or an earlier node**. -/
def IsPoint (nodes : List PointNode) : Prop :=
  ∀ earlier node rest, nodes = earlier ++ node :: rest → IsPointNode (earlier.map PointNode.o) node

theorem bind_eq_ok {ε α β : Type} {x : Except ε α} {f : α → Except ε β} {b : β} :
    (x >>= f) = .ok b ↔ ∃ a, x = .ok a ∧ f a = .ok b := by
  cases x with
  | error e => exact iff_of_false nofun (by rintro ⟨a, ha, -⟩; exact absurd ha nofun)
  | ok a =>
    constructor
    · exact fun h => ⟨a, rfl, h⟩
    · rintro ⟨a', ha, h⟩
      obtain rfl := Except.ok.inj ha
      exact h

@[simp]
theorem demand_eq_ok {check : Bool} {reason : String} {u : Unit} :
    demand check reason = .ok u ↔ check = true := by
  cases check
  · exact iff_of_false nofun nofun
  · exact iff_of_true rfl rfl

@[simp]
theorem demandSome_eq_ok {α : Type} {value : Option α} {reason : String} {a : α} :
    demandSome value reason = .ok a ↔ value = some a := by
  cases value with
  | none => exact iff_of_false nofun nofun
  | some b => exact ⟨fun h => congrArg some (Except.ok.inj h), fun h => congrArg _ (Option.some.inj h)⟩

theorem validateUrl_ok {raw : Json} {k : NodeKind} {u : Option String}
    (h : validateUrl raw k = .ok u) : u.isSome ↔ k = .bookmark := by
  cases k with
  | bookmark =>
    rw [validateUrl, map_eq_pure_bind, bind_eq_ok] at h
    obtain ⟨url, -, hu⟩ := h
    obtain rfl := Except.ok.inj hu
    exact iff_of_true rfl rfl
  | folder =>
    obtain ⟨-, -, hu⟩ := bind_eq_ok.mp h
    obtain rfl := Except.ok.inj hu
    exact iff_of_false nofun nofun

theorem isPointNode_of_validateNode {seen : List String} {raw : Json} {node : PointNode}
    (h : validateNode seen raw = .ok node) : IsPointNode seen node := by
  simp only [validateNode, bind_eq_ok, demand_eq_ok, demandSome_eq_ok, exists_and_left, exists_const,
    decide_eq_true_eq] at h
  obtain ⟨-, o, -, huuid, ⟨hroot, hfresh⟩, k, -, t, -, x, -, hx, p, -, hp, u, hu, hnode⟩ := h
  obtain rfl := Except.ok.inj hnode
  exact ⟨huuid, hroot, hfresh, hx, hp, validateUrl_ok hu⟩

theorem IsPointNode.congr {earlier earlier' : List String} {node : PointNode}
    (h : IsPointNode earlier node) (hmem : ∀ o, o ∈ earlier ↔ o ∈ earlier') :
    IsPointNode earlier' node where
  uuid := h.uuid
  notRoot := h.notRoot
  fresh := (hmem _).not.mp h.fresh
  position := h.position
  parent := h.parent.imp_right (hmem _).mp
  url := h.url

theorem isPoint_of_validateNodes {seen : List String} {items : List Json} {nodes : List PointNode}
    (h : validateNodes seen items = .ok nodes) :
    ∀ earlier node rest, nodes = earlier ++ node :: rest →
      IsPointNode ((earlier.map PointNode.o).reverse ++ seen) node := by
  induction items generalizing seen nodes with
  | nil =>
    obtain rfl := Except.ok.inj h
    rintro earlier node rest heq
    exact absurd heq (by simp)
  | cons raw items ih =>
    obtain ⟨first, hfirst, h⟩ := bind_eq_ok.mp h
    obtain ⟨others, hothers, h⟩ := bind_eq_ok.mp h
    obtain rfl := Except.ok.inj h
    rintro (_ | ⟨_, earlier⟩) node rest heq
    · obtain ⟨rfl, -⟩ := List.cons.inj heq
      exact isPointNode_of_validateNode hfirst
    · obtain ⟨rfl, hrest⟩ := List.cons.inj heq
      have hnode := ih hothers earlier node rest hrest
      rwa [List.map_cons, List.reverse_cons, List.append_assoc]

/-- **What is accepted is a point.** -/
theorem isPoint_of_validatePoint {isDate : String → Bool} {value : Json} {point : PointPlaintext}
    (h : validatePoint isDate value = .ok point) : IsPoint point.nodes := by
  simp only [validatePoint, bind_eq_ok] at h
  obtain ⟨-, -, -, -, _, -, -, -, _, -, _, -, -, -, items, -, nodes, hnodes, hpoint⟩ := h
  obtain rfl := Except.ok.inj hpoint
  rintro earlier node rest heq
  exact (isPoint_of_validateNodes hnodes earlier node rest heq).congr (by simp)

/-! ### What is accepted -/

/-- The node as it is written. -/
def PointNode.value (node : PointNode) : Json :=
  .object ([("o", .string node.o), ("k", .string (match node.k with | .bookmark => "b" | .folder => "f")),
    ("t", .string node.t)] ++ (node.u.map fun u => ("u", .string u)).toList ++
    [("p", .string node.p), ("x", .string node.x)])

/-- The point as it is written. -/
def PointPlaintext.value (point : PointPlaintext) : Json :=
  .object [("v", .number pointVersion), ("createdAt", .string point.createdAt),
    ("deviceId", .string point.deviceId), ("kind", .string point.kind),
    ("nodes", .array (point.nodes.map PointNode.value))]

/-- What is read back from a node that is written. -/
theorem read_value {node : PointNode} (hurl : node.u.isSome ↔ node.k = .bookmark) :
    isObject node.value = true ∧ stringField node.value "o" = some node.o ∧
      nodeKind node.value = some node.k ∧ stringField node.value "t" = some node.t ∧
      stringField node.value "x" = some node.x ∧ stringField node.value "p" = some node.p ∧
      validateUrl node.value node.k = .ok node.u := by
  obtain ⟨o, k, t, u, p, x⟩ := node
  cases k with
  | bookmark =>
    obtain ⟨u, rfl⟩ := Option.isSome_iff_exists.mp (hurl.mpr rfl)
    exact ⟨rfl, rfl, rfl, rfl, rfl, rfl, rfl⟩
  | folder =>
    obtain rfl : u = none := Option.not_isSome_iff_eq_none.mp (hurl.not.mpr nofun)
    exact ⟨rfl, rfl, rfl, rfl, rfl, rfl, rfl⟩

theorem validateNode_value {seen : List String} {node : PointNode} (h : IsPointNode seen node) :
    validateNode seen node.value = .ok node := by
  obtain ⟨hobject, ho, hk, ht, hx, hp, hu⟩ := read_value h.url
  simp only [validateNode, bind_eq_ok, demand_eq_ok, demandSome_eq_ok, exists_and_left, exists_const,
    decide_eq_true_eq]
  exact ⟨hobject, _, ho, h.uuid, ⟨h.notRoot, h.fresh⟩, _, hk, _, ht, _, hx, h.position, _, hp,
    h.parent, _, hu, rfl⟩

theorem validateNodes_value {seen : List String} {nodes : List PointNode}
    (h : ∀ earlier node rest, nodes = earlier ++ node :: rest →
      IsPointNode (earlier.map PointNode.o ++ seen) node) :
    validateNodes seen (nodes.map PointNode.value) = .ok nodes := by
  induction nodes generalizing seen with
  | nil => rfl
  | cons node nodes ih =>
    have hrest : validateNodes (node.o :: seen) (nodes.map PointNode.value) = .ok nodes := by
      refine ih fun earlier other rest heq => ?_
      refine (h (node :: earlier) other rest (by rw [heq]; rfl)).congr fun o => ?_
      simp [or_left_comm]
    have hfirst : IsPointNode seen node := h [] node nodes rfl
    exact bind_eq_ok.mpr ⟨node, validateNode_value hfirst, bind_eq_ok.mpr ⟨nodes, hrest, rfl⟩⟩

/-- **A point is accepted as it is written.** -/
theorem validatePoint_value {isDate : String → Bool} {point : PointPlaintext}
    (hdate : isDate point.createdAt = true) (hkind : point.kind ∈ pointKinds)
    (h : IsPoint point.nodes) : validatePoint isDate point.value = .ok point := by
  have hnodes : validateNodes [] (point.nodes.map PointNode.value) = .ok point.nodes :=
    validateNodes_value fun earlier node rest heq => by
      rw [List.append_nil]
      exact h earlier node rest heq
  simp only [validatePoint, bind_eq_ok, demand_eq_ok, demandSome_eq_ok, exists_and_left, exists_const,
    decide_eq_true_eq]
  exact ⟨rfl, (), rfl, _, rfl, hdate, _, rfl, _, rfl, hkind, _, rfl, _, hnodes, rfl⟩

/-! ### Nodes by id -/

/-- A `Map` filled from a list: for each key the last element that has it. -/
def byId {α : Type} (key : α → String) (items : List α) (id : String) : Option α :=
  items.reverse.find? fun item => key item = id

theorem mem_of_byId {α : Type} {key : α → String} {items : List α} {id : String} {item : α}
    (h : byId key items id = some item) : item ∈ items ∧ key item = id := by
  refine ⟨List.mem_reverse.mp (List.mem_of_find?_eq_some h), ?_⟩
  simpa using List.find?_some h

theorem byId_eq_none_iff {α : Type} {key : α → String} {items : List α} {id : String} :
    byId key items id = none ↔ id ∉ items.map key := by
  simp [byId]

/-- If the keys are distinct, an element is found by its key. -/
theorem byId_eq_some_iff {α : Type} {key : α → String} {items : List α}
    (hdistinct : (items.map key).Nodup) {id : String} {item : α} :
    byId key items id = some item ↔ item ∈ items ∧ key item = id := by
  refine ⟨mem_of_byId, ?_⟩
  rintro ⟨hmem, rfl⟩
  cases hfound : byId key items (key item) with
  | none => exact absurd (List.mem_map_of_mem hmem) (byId_eq_none_iff.mp hfound)
  | some other =>
    obtain ⟨hother, hkey⟩ := mem_of_byId hfound
    exact congrArg some (List.inj_on_of_nodup_map hdistinct hother hmem hkey)

theorem byId_append {α : Type} {key : α → String} (items items' : List α) (id : String) :
    byId key (items ++ items') id = (byId key items' id).or (byId key items id) := by
  rw [byId, List.reverse_append, List.find?_append]
  rfl

/-- A map that keeps the keys. -/
theorem byId_map {α : Type} {key : α → String} {f : α → α} (hf : ∀ a, key (f a) = key a)
    (items : List α) (id : String) : byId key (items.map f) id = (byId key items id).map f := by
  rw [byId, ← List.map_reverse, List.find?_map]
  simp only [Function.comp_def, hf]
  rfl

/-- What is removed goes by the keys. -/
theorem byId_filter {α : Type} {key : α → String} (keep : String → Bool) (items : List α) (id : String) :
    byId key (items.filter fun item => keep (key item)) id =
      if keep id then byId key items id else none := by
  rw [byId, ← List.filter_reverse, List.find?_filter]
  by_cases hkeep : keep id = true
  · rw [if_pos hkeep]
    refine congrFun (congrArg List.find? (funext fun item => ?_)) _
    by_cases hid : key item = id <;> simp [hid, hkeep]
  · rw [if_neg hkeep, List.find?_eq_none]
    rintro item - hitem
    obtain ⟨h, hid⟩ := of_decide_eq_true hitem
    obtain rfl : key item = id := of_decide_eq_true hid
    exact hkeep h

/-! ### The tree a point is -/

namespace IsPoint

variable {nodes : List PointNode} (h : IsPoint nodes)

include h

theorem of_mem {node : PointNode} (hmem : node ∈ nodes) :
    ∃ earlier rest, nodes = earlier ++ node :: rest ∧ IsPointNode (earlier.map PointNode.o) node := by
  obtain ⟨earlier, rest, heq⟩ := List.append_of_mem hmem
  exact ⟨earlier, rest, heq, h earlier node rest heq⟩

/-- **Ids are distinct.** -/
theorem distinct : (nodes.map PointNode.o).Nodup := by
  induction nodes using List.reverseRecOn with
  | nil => exact List.nodup_nil
  | append_singleton nodes node ih =>
    have hinit : IsPoint nodes := fun earlier other rest heq =>
      h earlier other (rest ++ [node]) (by rw [heq, List.append_assoc]; rfl)
    have hfresh := (h nodes node [] rfl).fresh
    rw [List.map_append, List.nodup_append]
    refine ⟨ih hinit, List.nodup_singleton _, ?_⟩
    rintro o ho _ hmem rfl
    obtain rfl := List.mem_singleton.mp hmem
    exact hfresh ho

theorem notRoot {node : PointNode} (hmem : node ∈ nodes) : node.o ∉ rootIds := by
  obtain ⟨_, _, _, hnode⟩ := h.of_mem hmem
  exact hnode.notRoot

theorem parent_mem {node : PointNode} (hmem : node ∈ nodes) :
    node.p ∈ rootIds ∨ ∃ parent ∈ nodes, parent.o = node.p := by
  obtain ⟨earlier, rest, heq, hnode⟩ := h.of_mem hmem
  refine hnode.parent.imp_right fun hp => ?_
  obtain ⟨parent, hparent, ho⟩ := List.mem_map.mp hp
  exact ⟨parent, heq ▸ List.mem_append_left _ hparent, ho⟩

end IsPoint

/-- The parent of a node of a point. -/
def pointUp (nodes : List PointNode) (id : String) : Option String :=
  (byId PointNode.o nodes id).map PointNode.p

/-- **Nodes that have the point's parents come to a root** if those that are parents do. The
nodes are gone through as the point lists them. -/
theorem rooted_of_settled {nodes : List PointNode} (h : IsPoint nodes) {up : String → Option String}
    {settled : PointNode → Prop} (hup : ∀ node ∈ nodes, settled node → up node.o = some node.p)
    (hparent : ∀ node ∈ nodes, settled node → ∀ parent ∈ nodes, parent.o = node.p → settled parent)
    {node : PointNode} (hmem : node ∈ nodes) (hnode : settled node) :
    Rooted (· ∈ rootIds) up node.o := by
  suffices hall : ∀ earlier rest, nodes = earlier ++ rest →
      ∀ node ∈ earlier, settled node → Rooted (· ∈ rootIds) up node.o from
    hall nodes [] (List.append_nil _).symm node hmem hnode
  clear hnode hmem node
  intro earlier
  induction earlier using List.reverseRecOn with
  | nil => exact fun _ _ node hnode => absurd hnode List.not_mem_nil
  | append_singleton earlier last ih =>
    intro rest heq node hnode hsettled
    rw [List.append_assoc] at heq
    rcases List.mem_append.mp hnode with hbefore | hlast
    · exact ih _ heq node hbefore hsettled
    · obtain rfl := List.mem_singleton.mp hlast
      have hmem : node ∈ nodes := by
        rw [heq]
        exact List.mem_append_right _ List.mem_cons_self
      refine .step (hup node hmem hsettled) ?_
      rcases (h earlier node rest heq).parent with hroot | hp
      · exact .root hroot
      · obtain ⟨parent, hp, ho⟩ := List.mem_map.mp hp
        have hpmem : parent ∈ nodes := by
          rw [heq]
          exact List.mem_append_left _ hp
        exact ho ▸ ih _ heq parent hp (hparent node hmem hsettled parent hpmem ho)

/-- **A point is a forest** with the built-in folders as its roots. -/
theorem IsPoint.rooted {nodes : List PointNode} (h : IsPoint nodes) {node : PointNode}
    (hmem : node ∈ nodes) : Rooted (· ∈ rootIds) (pointUp nodes) node.o := by
  refine @rooted_of_settled nodes h (pointUp nodes) (fun _ => True) ?_ (fun _ _ _ _ _ _ => trivial)
    node hmem trivial
  intro node hmem _
  rw [pointUp, (byId_eq_some_iff h.distinct).mpr ⟨hmem, rfl⟩]
  rfl

end Client

end HelixSync
