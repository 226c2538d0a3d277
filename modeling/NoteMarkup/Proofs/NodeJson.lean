import NoteMarkup.Command.Settings
import NoteMarkup.Proofs.JsonText

/-!
This module contains that trees survive being written as JSON and read again, in both layouts and up to the depth that
is read at all.
-/

namespace NoteMarkup

namespace Json

theorem depthItems_le_iff {k : Nat} {vs : List Json} : depthItems vs ≤ k ↔ ∀ v ∈ vs, v.depth ≤ k := by
  induction vs with
  | nil => simp [depthItems]
  | cons v vs ih => rw [depthItems, Nat.max_le, ih, List.forall_mem_cons]

theorem depthMembers_le_iff {k : Nat} {ms : List (String × Json)} :
    depthMembers ms ≤ k ↔ ∀ m ∈ ms, m.2.depth ≤ k := by
  induction ms with
  | nil => simp [depthMembers]
  | cons m ms ih => rw [depthMembers, Nat.max_le, ih, List.forall_mem_cons]

mutual

theorem isRepresentable_of_isTextual : ∀ v : Json, v.isTextual → v.isRepresentable
  | .null, _ | .bool _, _ | .string _, _ => rfl
  | .number _, h | .unpaired, h => by simp [isTextual] at h
  | .array items, h => by
    rw [isTextual] at h
    rw [isRepresentable, itemsRepresentable_of_itemsTextual items h]
  | .object members, h => by
    rw [isTextual] at h
    rw [isRepresentable, membersRepresentable_of_membersTextual members h]

theorem itemsRepresentable_of_itemsTextual : ∀ vs : List Json, itemsTextual vs → itemsRepresentable vs
  | [], _ => rfl
  | v :: vs, h => by
    rcases itemsTextual_cons_iff.mp h with ⟨hv, hvs⟩
    simp [itemsRepresentable, isRepresentable_of_isTextual v hv, itemsRepresentable_of_itemsTextual vs hvs]

theorem membersRepresentable_of_membersTextual :
    ∀ ms : List (String × Json), membersTextual ms → membersRepresentable ms
  | [], _ => rfl
  | (_, v) :: ms, h => by
    rcases membersTextual_cons_iff.mp h with ⟨hv, hms⟩
    simp [membersRepresentable, isRepresentable_of_isTextual v hv, membersRepresentable_of_membersTextual ms hms]

end

theorem exists_mem_of_mapM {α β : Type} {f : α → Option β} {as : List α} {bs : List β} (h : as.mapM f = some bs)
    {b : β} (hb : b ∈ bs) : ∃ a ∈ as, f a = some b := by
  induction as generalizing bs with
  | nil =>
    obtain rfl : bs = [] := by simpa using h.symm
    simp at hb
  | cons a as ih =>
    simp only [List.mapM_cons, Option.bind_eq_bind, Option.bind_eq_some_iff] at h
    rcases h with ⟨b', hb', bs', hbs, hcons⟩
    obtain rfl : bs = b' :: bs' := by simpa using hcons.symm
    rcases List.mem_cons.mp hb with rfl | hmem
    . exact ⟨a, List.mem_cons_self, hb'⟩
    . rcases ih hbs hmem with ⟨a', ha', heq⟩
      exact ⟨a', List.mem_cons_of_mem a ha', heq⟩

theorem mem_of_memberFields? {names : List String} {members : List (String × Json)} {fields : List (Option Json)}
    {v : Json} (h : memberFields? names members = some fields) (hv : some v ∈ fields) :
    ∃ name, (name, v) ∈ members := by
  rcases exists_mem_of_mapM h hv with ⟨name, -, hname⟩
  have hvalues : v ∈ valuesOf name members := by
    split at hname <;> simp_all
  simp only [valuesOf, List.mem_map, List.mem_filter] at hvalues
  rcases hvalues with ⟨⟨other, _⟩, ⟨hmem, -⟩, rfl⟩
  exact ⟨other, hmem⟩

theorem depth_lt_of_fields? {names : List String} {v w : Json} {fields : List (Option Json)}
    (h : v.fields? names = some fields) (hw : some w ∈ fields) : w.depth < v.depth := by
  cases v with
  | object members =>
    rcases mem_of_memberFields? h hw with ⟨name, hmem⟩
    exact Nat.lt_succ_of_le (depthMembers_le_iff.mp (Nat.le_refl _) _ hmem)
  | array items =>
    simp only [fields?, itemFields?, Option.ite_none_right_eq_some, Option.some.injEq] at h
    rcases h with ⟨-, rfl⟩
    have hmem : w ∈ items := by simpa using hw
    exact Nat.lt_succ_of_le (depthItems_le_iff.mp (Nat.le_refl _) _ hmem)
  | null | bool | number | string | unpaired => simp [fields?] at h

theorem depth_pos_of_fields? {names : List String} {v : Json} {fields : List (Option Json)}
    (h : v.fields? names = some fields) : 0 < v.depth := by
  cases v with
  | object | array => exact Nat.succ_pos _
  | null | bool | number | string | unpaired => simp [fields?] at h

theorem orDefault_ite_nil {α : Type} {as : List α} [Decidable (as = [])] {read? : Json → Option (List α)}
    {v : Json} (h : as ≠ [] → read? v = some as) : orDefault [] read? (if as = [] then none else some v) = some as := by
  split
  . next hnil => rw [orDefault, hnil]
  . next hcons => rw [orDefault, h hcons]

theorem exists_of_orDefault {α : Type} {as : List α} {read? : Json → Option (List α)} {field : Option Json}
    (h : orDefault [] read? field = some as) (has : as ≠ []) : ∃ v, field = some v ∧ read? v = some as := by
  cases field with
  | none => exact absurd (Option.some.inj h).symm has
  | some v => exact ⟨v, rfl, h⟩

theorem items?_eq_some {v : Json} {items : List Json} (h : v.items? = some items) : v = .array items := by
  cases v <;> simp_all [items?]

end Json

namespace Attribute

theorem depth_toJson (a : Attribute) : a.toJson.depth = 1 :=
  rfl

theorem ofJson?_toJson (a : Attribute) : ofJson? a.toJson = some a := by
  simp [ofJson?, toJson, Json.fields?, Json.memberFields?, Json.valuesOf, Json.string?]

theorem depth_pos_of_ofJson? {v : Json} {a : Attribute} (h : ofJson? v = some a) : 0 < v.depth := by
  simp only [ofJson?, Option.bind_eq_bind, Option.bind_eq_some_iff] at h
  rcases h with ⟨fields, hfields, -⟩
  exact Json.depth_pos_of_fields? hfields

theorem isTextual_listToJson (attributes : List Attribute) : (listToJson attributes).isTextual := by
  rw [listToJson, Json.isTextual]
  induction attributes with
  | nil => rfl
  | cons a attributes ih => simp [Json.itemsTextual, ih, toJson, Json.isTextual, Json.membersTextual]

theorem listOfJson?_listToJson (attributes : List Attribute) :
    listOfJson? (listToJson attributes) = some attributes := by
  simp only [listOfJson?, listToJson, Json.items?, Option.bind_eq_bind, Option.bind_some]
  induction attributes with
  | nil => rfl
  | cons a attributes ih =>
    rw [List.map_cons, List.mapM_cons, ofJson?_toJson, ih]
    rfl

theorem depth_listToJson_le {v : Json} {attributes : List Attribute} (h : listOfJson? v = some attributes) :
    (listToJson attributes).depth ≤ v.depth := by
  obtain ⟨items, hitems, hmap⟩ : ∃ items, v.items? = some items ∧ items.mapM ofJson? = some attributes := by
    simpa [listOfJson?, Option.bind_eq_some_iff] using h
  rcases Json.items?_eq_some hitems with rfl
  rw [listToJson, Json.depth, Json.depth]
  refine Nat.succ_le_succ (Json.depthItems_le_iff.mpr ?_)
  intro a ha
  rcases List.mem_map.mp ha with ⟨a, hmem, rfl⟩
  rcases Json.exists_mem_of_mapM hmap hmem with ⟨item, hitem, hread⟩
  calc a.toJson.depth
    _ = 1 := a.depth_toJson
    _ ≤ item.depth := depth_pos_of_ofJson? hread
    _ ≤ Json.depthItems items := Json.depthItems_le_iff.mp (Nat.le_refl _) item hitem

end Attribute

namespace Node

mutual

theorem isTextual_toJson : ∀ n : Node, n.toJson.isTextual
  | .text content => rfl
  | .element name attributes [] => by
    cases attributes <;> simp [toJson, Json.isTextual, Json.membersTextual, Attribute.isTextual_listToJson]
  | .element name attributes (child :: rest) => by
    have hchildren := itemsTextual_listToJson (child :: rest)
    rw [listToJson] at hchildren
    cases attributes <;>
      simp [toJson, Json.isTextual, Json.membersTextual, Attribute.isTextual_listToJson, hchildren]

theorem itemsTextual_listToJson : ∀ ns : List Node, Json.itemsTextual (listToJson ns)
  | [] => rfl
  | n :: ns => by simp [listToJson, Json.itemsTextual, isTextual_toJson n, itemsTextual_listToJson ns]

end

theorem listToJson_eq_map (ns : List Node) : listToJson ns = ns.map toJson := by
  induction ns with
  | nil => rfl
  | cons n ns ih => rw [listToJson, List.map_cons, ih]

theorem depth_toJson_element (name : String) (attributes : List Attribute) (children : List Node) :
    (element name attributes children).toJson.depth =
      max (if attributes = [] then 0 else (Attribute.listToJson attributes).depth)
        (if children = [] then 0 else Json.depthItems (listToJson children) + 1) + 1 := by
  cases attributes <;> cases children <;> simp [toJson, Json.depth, Json.depthMembers, listToJson]

theorem taggedForm?_toJson_element (nested : Bool) (name : String) (attributes : List Attribute)
    (children : List Node) :
    taggedForm? nested (element name attributes children).toJson =
      some ("Element", (element name attributes children).toJson) := by
  cases attributes <;> cases children <;> simp [toJson, taggedForm?, typeName?, Json.valuesOf]

theorem fields?_toJson_element (name : String) (attributes : List Attribute) (children : List Node) :
    (element name attributes children).toJson.fields? ["name", "attributes", "children"] =
      some [some (.string name), if attributes = [] then none else some (Attribute.listToJson attributes),
        if children = [] then none else some (.array (listToJson children))] := by
  cases attributes <;> cases children <;>
    simp [toJson, Json.fields?, Json.memberFields?, Json.valuesOf, listToJson]

theorem depth_toJson_pos (n : Node) : 0 < n.toJson.depth := by
  cases n with
  | text content => exact Nat.one_pos
  | element name attributes children =>
    rw [depth_toJson_element]
    exact Nat.succ_pos _

mutual

theorem ofJson?_toJson (nested : Bool) :
    ∀ (n : Node) (fuel : Nat), n.toJson.depth ≤ fuel → ofJson? nested fuel n.toJson = some n
  | n, 0, h => absurd n.depth_toJson_pos (Nat.not_lt.mpr h)
  | .text content, fuel + 1, _ => by
    simp [ofJson?, toJson, taggedForm?, typeName?, Json.fields?, Json.memberFields?, Json.valuesOf, Json.string?]
  | .element name attributes children, fuel + 1, h => by
    rw [depth_toJson_element] at h
    rcases Nat.max_le.mp (Nat.le_of_succ_le_succ h) with ⟨-, hdepth⟩
    have hattributes : Json.orDefault [] Attribute.listOfJson?
        (if attributes = [] then none else some (Attribute.listToJson attributes)) = some attributes :=
      Json.orDefault_ite_nil fun _ => Attribute.listOfJson?_listToJson attributes
    have hchildren : Json.orDefault [] (fun v => v.items?.bind (·.mapM (ofJson? true fuel)))
        (if children = [] then none else some (.array (listToJson children))) = some children := by
      refine Json.orDefault_ite_nil fun hcons => ?_
      rw [if_neg hcons] at hdepth
      exact mapM_ofJson?_listToJson children fuel (Nat.le_of_succ_le hdepth)
    rw [ofJson?, taggedForm?_toJson_element]
    simp [fields?_toJson_element, Json.string?, hattributes, hchildren]

theorem mapM_ofJson?_listToJson :
    ∀ (ns : List Node) (fuel : Nat), Json.depthItems (listToJson ns) ≤ fuel →
      (listToJson ns).mapM (ofJson? true fuel) = some ns
  | [], _, _ => rfl
  | n :: ns, fuel, h => by
    obtain ⟨hn, hns⟩ : n.toJson.depth ≤ fuel ∧ Json.depthItems (listToJson ns) ≤ fuel := Nat.max_le.mp h
    rw [listToJson, List.mapM_cons, ofJson?_toJson true n fuel hn, mapM_ofJson?_listToJson ns fuel hns]
    rfl

end

theorem depth_of_taggedForm? {nested : Bool} {v form : Json} {name : String}
    (h : taggedForm? nested v = some (name, form)) : form.depth ≤ v.depth := by
  unfold taggedForm? at h
  split at h
  . split at h
    . rcases Option.map_eq_some_iff.mp h with ⟨_, -, heq⟩
      cases heq
      exact Nat.le_refl _
    . cases h
  . rcases Option.map_eq_some_iff.mp h with ⟨_, -, heq⟩
    cases heq
    exact Nat.succ_le_succ (Nat.le_max_right _ _)
  . cases h

theorem depth_listToJson_le {fuel : Nat} {v : Json} {ns : List Node}
    (ih : ∀ {v n}, ofJson? true fuel v = some n → n.toJson.depth ≤ v.depth)
    (h : (v.items?.bind (·.mapM (ofJson? true fuel))) = some ns) :
    Json.depthItems (listToJson ns) + 1 ≤ v.depth := by
  rcases Option.bind_eq_some_iff.mp h with ⟨items, hitems, hmap⟩
  rcases Json.items?_eq_some hitems with rfl
  rw [Json.depth]
  refine Nat.succ_le_succ (Json.depthItems_le_iff.mpr ?_)
  rw [listToJson_eq_map]
  intro v hv
  rcases List.mem_map.mp hv with ⟨n, hn, rfl⟩
  rcases Json.exists_mem_of_mapM hmap hn with ⟨item, hitem, hread⟩
  exact Nat.le_trans (ih hread) (Json.depthItems_le_iff.mp (Nat.le_refl _) item hitem)

theorem depth_toJson_le {nested : Bool} {fuel : Nat} {v : Json} {n : Node} (h : ofJson? nested fuel v = some n) :
    n.toJson.depth ≤ v.depth := by
  induction fuel generalizing nested v n with
  | zero => cases h
  | succ fuel ih =>
    simp only [ofJson?, Option.bind_eq_bind, Option.bind_eq_some_iff] at h
    rcases h with ⟨⟨type, form⟩, htagged, h⟩
    refine Nat.le_trans ?_ (depth_of_taggedForm? htagged)
    split at h
    . next hform =>
      cases hform
      rcases Option.bind_eq_some_iff.mp h with ⟨fields, hfields, h⟩
      split at h
      . next nameField attributesField childrenField =>
        simp only [Option.bind_eq_some_iff] at h
        rcases h with ⟨name, hname, attributes, hattributes, children, hchildren, h⟩
        obtain rfl : element name attributes children = n := by simpa using h
        have hdepth {w : Json} (hw : some w ∈ [some nameField, attributesField, childrenField]) :
            w.depth < form.depth :=
          Json.depth_lt_of_fields? hfields hw
        have hpos := Json.depth_pos_of_fields? hfields
        rw [depth_toJson_element]
        refine Nat.max_lt.mpr ⟨?_, ?_⟩
        . split
          . exact hpos
          . next has =>
            rcases Json.exists_of_orDefault hattributes has with ⟨w, rfl, hread⟩
            exact Nat.lt_of_le_of_lt (Attribute.depth_listToJson_le hread) (hdepth (by simp))
        . split
          . exact hpos
          . next hcs =>
            rcases Json.exists_of_orDefault hchildren hcs with ⟨w, rfl, hread⟩
            exact Nat.lt_of_le_of_lt (depth_listToJson_le ih hread) (hdepth (by simp))
      . cases h
    . next hform =>
      cases hform
      rcases Option.bind_eq_some_iff.mp h with ⟨fields, hfields, h⟩
      split at h
      . next contentField =>
        simp only [Option.bind_eq_some_iff] at h
        rcases h with ⟨content, -, h⟩
        obtain rfl : text content = n := by simpa using h
        exact Json.depth_pos_of_fields? hfields
      . cases h
    . cases h

theorem parseJson?_eq_some_iff {text : String} {n : Node} (htext : Json.parse? text = some n.toJson) :
    parseJson? text = some n ↔ n.toJson.depth < 128 := by
  have hrepresentable := Json.isRepresentable_of_isTextual _ n.isTextual_toJson
  simp only [parseJson?, htext, hrepresentable, Option.bind_eq_bind, Option.bind_some, Bool.and_true]
  constructor
  . intro h
    split at h
    . next hdepth => exact Nat.lt_succ_of_le (of_decide_eq_true hdepth)
    . cases h
  . intro h
    have hdepth : n.toJson.depth ≤ greatestDepth := Nat.le_of_lt_succ h
    rw [if_pos (decide_eq_true hdepth), ofJson?_toJson false n _ hdepth]

theorem depth_toJson_lt {text : String} {n : Node} (h : parseJson? text = some n) : n.toJson.depth < 128 := by
  rcases Option.bind_eq_some_iff.mp h with ⟨v, -, h⟩
  split at h
  . next hv =>
    simp only [Bool.and_eq_true, decide_eq_true_eq] at hv
    exact Nat.lt_succ_of_le (Nat.le_trans (depth_toJson_le h) hv.1)
  . cases h

theorem parse?_writeJson (n : Node) (pretty : Bool) :
    Json.parse? (Command.writeJson pretty n.toJson) = some n.toJson := by
  cases pretty with
  | false => exact Json.parse?_compact n.isTextual_toJson
  | true => exact Json.parse?_pretty n.isTextual_toJson

theorem json_lossless :
    (∀ (n : Node) (pretty : Bool),
        parseJson? (Command.writeJson pretty n.toJson) = some n ↔ n.toJson.depth < 128)
      ∧ ∀ (text : String) (n : Node), parseJson? text = some n →
        ∀ pretty, parseJson? (Command.writeJson pretty n.toJson) = some n := by
  have hwritten (n : Node) (pretty : Bool) := parseJson?_eq_some_iff (parse?_writeJson n pretty)
  refine ⟨hwritten, ?_⟩
  intro text n h pretty
  exact (hwritten n pretty).2 (depth_toJson_lt h)

theorem paragraph_lossless :
    ∃ n, parseJson? ("\x7b\"children\":[\x7b\"content\":\"\\u0007\",\"type\":\"Text\"\x7d]," ++
          "\"id\":null,\"name\":\"p\",\"type\":\"Element\"\x7d") = some n
        ∧ Command.writeJson false n.toJson = "\x7b\"type\":\"Element\",\"name\":\"p\"," ++
          "\"children\":[\x7b\"type\":\"Text\",\"content\":\"\\u0007\"\x7d]\x7d"
        ∧ ∀ pretty, parseJson? (Command.writeJson pretty n.toJson) = some n := by
  have hread : (parseJson? ("\x7b\"children\":[\x7b\"content\":\"\\u0007\",\"type\":\"Text\"\x7d]," ++
        "\"id\":null,\"name\":\"p\",\"type\":\"Element\"\x7d")).map (Command.writeJson false ·.toJson) =
      some ("\x7b\"type\":\"Element\",\"name\":\"p\"," ++
        "\"children\":[\x7b\"type\":\"Text\",\"content\":\"\\u0007\"\x7d]\x7d") := by
    decide +kernel
  rcases Option.map_eq_some_iff.mp hread with ⟨n, hn, hwritten⟩
  exact ⟨n, hn, hwritten, json_lossless.2 _ n hn⟩

end Node

end NoteMarkup
