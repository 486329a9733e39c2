import Sensitivity.Proofs.Description.Format

/-! Descriptions read from their own documents. A description is found again when each of its
numbers is and when no more containers are open at once than a reader allows, and otherwise
nothing can be read. -/
namespace Sensitivity

open Json

/-! ### Numbers -/

/-- The text of the float stands for that float. -/
def Single.ReadsBack (x : Single) : Prop := (ofSingle x).toSingle? = some x

instance (x : Single) : Decidable x.ReadsBack := inferInstanceAs (Decidable (_ = _))

section

variable {x : Single} {v : Value} {room : ℕ}

theorem Single.isFinite_of_toValue? (h : (ofSingle x).toValue? = some v) : x.isFinite := by
  by_contra hx
  rw [ofSingle,if_neg hx] at h
  cases h

/-- A float is written with a point or an exponent, and so never read as a whole number. -/
theorem Single.ReadsBack.exists_value (h : x.ReadsBack) :
    ∃ v, (ofSingle x).toValue? = some v ∧ v.toSingle = x ∧ v.toInt? = none := by
  obtain ⟨v,hv,hx⟩ := Option.map_eq_some_iff.mp h
  obtain ⟨s,hs,hchars⟩ := exists_ofSingle (Single.isFinite_of_toValue? hv)
  rw [hchars] at hv ⊢
  exact ⟨v,hv,hx,toInt?_of_isReal hs hv⟩

theorem Attribute.ofJson?_of_toValue? {j : Json} (h : j.toValue? = some v) :
    Attribute.ofJson? room j = some (match v.toInt? with
      | some n => .int n
      | none => .float v.toSingle) := by
  cases j with
  | number lexeme =>
    change numberValue? lexeme = some v at h
    rw [Attribute.ofJson?,h]
    rfl
  | _ => cases h

theorem Attribute.ofJson?_float (h : x.ReadsBack) :
    Attribute.ofJson? room (Attribute.float x).toJson = some (.float x) := by
  obtain ⟨v,hv,hx,hint⟩ := h.exists_value
  rw [Attribute.toJson,Attribute.ofJson?_of_toValue? hv,hint,hx]

theorem Attribute.ofJson?_natural {key : String} {n : ℕ} (h : n < 2 ^ (63 : ℕ)) :
    Attribute.ofJson? room (LayerFields.natural key n).2.toJson =
      some (LayerFields.natural key n).2 := by
  have hint : (LayerFields.natural key n).2 = .int n := by
    rw [LayerFields.natural,if_pos h]
  have hvalue : (Json.ofInt n).toValue? = some (.unsigned n) := by
    have hsign : decide ((n : ℤ) < 0) = false := by simp
    rw [ofInt_eq_number,toValue?,hsign]
    exact numberValue?_ofNat (show n < 2 ^ (64 : ℕ) by omega)
  rw [hint,Attribute.toJson,Attribute.ofJson?_of_toValue? hvalue]
  simp [Value.toInt?,h]

def Attribute.singles : Attribute Single → List Single
  | .float x => [x]
  | .floats xs => xs
  | _ => []

theorem Attribute.isFinite_of_ofJson? {a b : Attribute Single}
    (h : Attribute.ofJson? room a.toJson = some b) : ∀ x ∈ a.singles, x.isFinite := by
  intro x hx
  cases a with
  | float y =>
    obtain rfl := List.mem_singleton.mp hx
    by_contra hfinite
    rw [Attribute.toJson,ofSingle,if_neg hfinite] at h
    simp [Attribute.ofJson?] at h
  | floats ys =>
    cases room with
    | zero => simp [Attribute.toJson,Attribute.ofJson?] at h
    | succ room =>
      simp only [Attribute.toJson,Attribute.ofJson?,List.mapM_map] at h
      obtain ⟨values,hvalues,-⟩ := Option.bind_eq_some_iff.mp h
      obtain ⟨v,hv⟩ := exists_of_mapM hvalues hx
      exact Single.isFinite_of_toValue? hv
  | int _ => cases hx
  | text _ => cases hx
  | ints _ => cases hx

end

/-! ### Tensors and attributes -/

namespace TensorData

/-- Each extent fits a reader, and each value is read back. -/
structure Legible (d : TensorData) : Prop where
  shape : ∀ n ∈ d.shape, n < 2 ^ (64 : ℕ)
  data : ∀ x ∈ d.data, x.ReadsBack

theorem ofNullable?_toJson {d : TensorData} {room : ℕ} {r : Option TensorData} :
    TensorData.ofNullable? (room + 1) d.toJson = some r ↔ ∃ shape data,
      toList? (fun _ => Json.toNat?) room (.array (d.shape.map Json.ofNat)) = some shape ∧
      toList? (fun _ => Json.toSingle?) room (.array (d.data.map Json.ofSingle)) = some data ∧
      some ⟨shape,data⟩ = r := by
  have hrecord : record? ["shape","data"] (room + 1) d.toJson = some (room,
      [some (.array (d.shape.map Json.ofNat)),some (.array (d.data.map Json.ofSingle))]) := by
    rw [toJson,ofFields_eq_present]
    exact record?_present [("shape",some _),("data",some _)]
      (show List.Nodup ["shape","data"] by decide) room
  change (ofJson? (room + 1) d.toJson).map some = some r ↔ _
  simp [ofJson?,hrecord,Option.bind_eq_some_iff]

theorem Legible.ofNullable? {d : TensorData} (h : d.Legible) (room : ℕ) :
    TensorData.ofNullable? (room + 2) d.toJson = some (some d) := by
  have hshape : toList? (fun _ => Json.toNat?) (room + 1) (.array (d.shape.map Json.ofNat)) =
      some (d.shape.map id) := toList?_map fun n hn => toNat?_ofNat (h.shape n hn)
  have hdata : toList? (fun _ => Json.toSingle?) (room + 1) (.array (d.data.map Json.ofSingle)) =
      some (d.data.map id) := toList?_map fun x hx => h.data x hx
  rw [List.map_id] at hshape hdata
  exact ofNullable?_toJson.mpr ⟨_,_,hshape,hdata,rfl⟩

theorem of_ofNullable? {d : TensorData} {room : ℕ} {r : Option TensorData}
    (h : TensorData.ofNullable? room d.toJson = some r) : 2 ≤ room ∧ ∀ x ∈ d.data, x.isFinite := by
  cases room with
  | zero => cases h
  | succ room =>
    obtain ⟨shape,data,-,hdata,-⟩ := ofNullable?_toJson.mp h
    obtain ⟨inner,rfl,hread⟩ := of_toList?_map hdata
    refine ⟨by omega,fun x hx => ?_⟩
    obtain ⟨y,hy⟩ := hread x hx
    obtain ⟨v,hv,-⟩ := Option.map_eq_some_iff.mp hy
    exact Single.isFinite_of_toValue? hv

end TensorData

theorem attributesOf?_ofFields (attributes : List (String × Attribute Single)) (room : ℕ) :
    attributesOf? (room + 1) (.ofFields (attributes.map fun a => (a.1,a.2.toJson))) =
      attributes.mapM fun a => (Attribute.ofJson? room a.2.toJson).map fun v => (a.1,v) := by
  simp only [attributesOf?,ofFields,List.mapM_map,List.map_map]
  congr 1
  funext a
  cases h : Attribute.ofJson? room a.2.toJson <;> simp [h]

theorem attributesOf?_of_forall {attributes : List (String × Attribute Single)} {room : ℕ}
    (h : ∀ a ∈ attributes, Attribute.ofJson? room a.2.toJson = some a.2) :
    attributesOf? (room + 1) (.ofFields (attributes.map fun a => (a.1,a.2.toJson))) =
      some attributes := by
  rw [attributesOf?_ofFields,mapM_eq_some (g := id) fun a ha => ?_,List.map_id]
  rw [h a ha]
  rfl

theorem of_attributesOf? {attributes attributes' : List (String × Attribute Single)} {room : ℕ}
    (h : attributesOf? room (.ofFields (attributes.map fun a => (a.1,a.2.toJson))) =
      some attributes') : 1 ≤ room ∧ ∀ a ∈ attributes, ∀ x ∈ a.2.singles, x.isFinite := by
  cases room with
  | zero => cases h
  | succ room =>
    refine ⟨by omega,fun a ha => ?_⟩
    rw [attributesOf?_ofFields] at h
    obtain ⟨v,hv⟩ := exists_of_mapM h ha
    obtain ⟨b,hb,-⟩ := Option.map_eq_some_iff.mp hv
    exact Attribute.isFinite_of_ofJson? hb

/-! ### Layers -/

theorem layerOf?_present {f : LayerFields} {branches : Option Json} {room : ℕ}
    {r : LayerFields × BranchSpecs} :
    layerOf? (room + 1) (.object (present (f.members branches))) = some r ↔
      ∃ attributes weights bias inside,
        optional? (attributesOf? room) [] f.attributesJson = some attributes ∧
        optional? (TensorData.ofNullable? room) none (f.weights.map TensorData.toJson) =
          some weights ∧
        optional? (TensorData.ofNullable? room) none (f.bias.map TensorData.toJson) = some bias ∧
        optional? (branchesOf? room) .nil branches = some inside ∧
        (⟨f.name,f.kind,attributes,weights,bias⟩,inside) = r := by
  have hrecord := record?_present (f.members branches)
    (show List.Nodup ["name","kind","attributes","weights","bias","branches"] by decide) room
  simp only [LayerFields.members,List.map_cons,List.map_nil] at hrecord
  rw [layerOf?]
  simp only [LayerFields.members,hrecord]
  simp [Option.bind_eq_some_iff,toText?,ofString]

theorem branchOf?_present {name : String} {layers : LayerSpecs} {room : ℕ}
    {r : String × LayerSpecs} :
    branchOf? (room + 1) (.object (present [("name",some (.ofString name)),
      ("layers",some (.array layers.toJson))])) = some r ↔
      ∃ inside, layersOf? room (.array layers.toJson) = some inside ∧ (name,inside) = r := by
  have hrecord := record?_present [("name",some (.ofString name)),
    ("layers",some (.array layers.toJson))] (show List.Nodup ["name","layers"] by decide) room
  simp only [List.map_cons,List.map_nil] at hrecord
  rw [branchOf?]
  simp only [hrecord]
  simp [Option.bind_eq_some_iff,toText?,ofString,optional?]

namespace LayerFields

/-- Every number of the fields is read back. -/
structure Legible (f : LayerFields) : Prop where
  attributes : ∀ a ∈ f.attributes, ∀ room, Attribute.ofJson? room a.2.toJson = some a.2
  weights : ∀ d ∈ f.weights, d.Legible
  bias : ∀ d ∈ f.bias, d.Legible

def singles (f : LayerFields) : List Single :=
  f.attributes.flatMap (fun a => a.2.singles) ++ (f.weights.elim [] TensorData.data ++
    f.bias.elim [] TensorData.data)

def height (f : LayerFields) : ℕ :=
  1 + max (if f.attributes.isEmpty then 0 else 1)
    (max (if f.weights.isSome then 2 else 0) (if f.bias.isSome then 2 else 0))

theorem one_le_height (f : LayerFields) : 1 ≤ f.height := Nat.le_add_right _ _

theorem Legible.optional?_attributes {f : LayerFields} (h : f.Legible) {room : ℕ}
    (hroom : f.height ≤ room + 1) :
    optional? (attributesOf? room) [] f.attributesJson = some f.attributes := by
  unfold attributesJson
  split
  next hempty => rw [List.isEmpty_iff.mp hempty]; rfl
  next hne =>
    simp only [height,hne,Bool.false_eq_true,if_false] at hroom
    obtain ⟨room,rfl⟩ : ∃ n, room = n + 1 := ⟨room - 1,by omega⟩
    exact attributesOf?_of_forall fun a ha => h.attributes a ha room

theorem optional?_tensor {o : Option TensorData} (h : ∀ d ∈ o, d.Legible) {room : ℕ}
    (hroom : (if o.isSome then 2 else 0) ≤ room) :
    optional? (TensorData.ofNullable? room) none (o.map TensorData.toJson) = some o := by
  cases o with
  | none => rfl
  | some d =>
    obtain ⟨room,rfl⟩ : ∃ n, room = n + 2 := ⟨room - 2,by simp at hroom; omega⟩
    exact (h d rfl).ofNullable? room

theorem of_optional?_tensor {o r : Option TensorData} {room : ℕ}
    (h : optional? (TensorData.ofNullable? room) none (o.map TensorData.toJson) = some r) :
    (if o.isSome then 2 else 0) ≤ room ∧ ∀ x ∈ o.elim [] TensorData.data, x.isFinite := by
  cases o with
  | none => exact ⟨Nat.zero_le _,by simp⟩
  | some d => exact TensorData.of_ofNullable? h

theorem of_optional?_attributes {f : LayerFields} {room : ℕ}
    {attributes : List (String × Attribute Single)}
    (h : optional? (attributesOf? room) [] f.attributesJson = some attributes) :
    (if f.attributes.isEmpty then 0 else 1) ≤ room ∧
      ∀ x ∈ f.attributes.flatMap (fun a => a.2.singles), x.isFinite := by
  unfold attributesJson at h
  split at h
  next hempty =>
    rw [List.isEmpty_iff.mp hempty]
    exact ⟨Nat.zero_le _,by simp⟩
  next hne =>
    obtain ⟨hroom,hfinite⟩ := of_attributesOf? h
    refine ⟨by simpa [hne] using hroom,fun x hx => ?_⟩
    obtain ⟨a,ha,hx⟩ := List.mem_flatMap.mp hx
    exact hfinite a ha x hx

end LayerFields

mutual

/-- How many containers are open at once inside the array of the layers. -/
def LayerSpecs.height : LayerSpecs → ℕ
  | .nil => 0
  | .cons f branches rest => max (max f.height (1 + branches.height)) rest.height

def BranchSpecs.height : BranchSpecs → ℕ
  | .nil => 0
  | .cons _ layers rest => max (3 + layers.height) rest.height

end

theorem BranchSpecs.optional?_of_mapM {specs : BranchSpecs} {room : ℕ} (hroom : specs.height ≤ room)
    (h : ∀ r, room = r + 1 → (specs.toJson.mapM (branchOf? r)).map BranchSpecs.ofList = some specs) :
    optional? (branchesOf? room) .nil specs.json? = some specs := by
  cases specs with
  | nil => rfl
  | cons name layers rest =>
    simp only [BranchSpecs.height] at hroom
    obtain ⟨room,rfl⟩ : ∃ n, room = n + 1 := ⟨room - 1,by omega⟩
    exact h room rfl

mutual

theorem LayerSpecs.mapM_layerOf? (specs : LayerSpecs) {room : ℕ}
    (h : specs.All LayerFields.Legible) (hroom : specs.height ≤ room) :
    (specs.toJson.mapM (layerOf? room)).map LayerSpecs.ofList = some specs := by
  cases specs with
  | nil => rfl
  | cons f branches rest =>
    obtain ⟨hf,hbranches,hrest⟩ := h
    simp only [LayerSpecs.height,max_le_iff] at hroom
    obtain ⟨⟨hheight,hinside⟩,hafter⟩ := hroom
    obtain ⟨room,rfl⟩ : ∃ n, room = n + 1 := ⟨room - 1,by have := f.one_le_height; omega⟩
    have hlayer : layerOf? (room + 1) (.object (present (f.members branches.json?))) =
        some (f,branches) := by
      have hparts := hheight
      simp only [LayerFields.height] at hparts
      exact layerOf?_present.mpr ⟨_,_,_,_,hf.optional?_attributes hheight,
        LayerFields.optional?_tensor hf.weights (by omega),
        LayerFields.optional?_tensor hf.bias (by omega),
        BranchSpecs.optional?_of_mapM (by omega) fun r hr =>
          branches.mapM_branchOf? hbranches (by omega),rfl⟩
    obtain ⟨list,hlist,hspecs⟩ := Option.map_eq_some_iff.mp (rest.mapM_layerOf? hrest hafter)
    rw [LayerSpecs.toJson_cons,List.mapM_cons,hlayer,hlist]
    simp [LayerSpecs.ofList,hspecs]

theorem BranchSpecs.mapM_branchOf? (specs : BranchSpecs) {room : ℕ}
    (h : specs.All LayerFields.Legible) (hroom : specs.height ≤ room + 1) :
    (specs.toJson.mapM (branchOf? room)).map BranchSpecs.ofList = some specs := by
  cases specs with
  | nil => rfl
  | cons name layers rest =>
    simp only [BranchSpecs.height,max_le_iff] at hroom
    obtain ⟨room,rfl⟩ : ∃ n, room = n + 2 := ⟨room - 2,by omega⟩
    have hlayers : layersOf? (room + 1) (.array layers.toJson) = some layers :=
      layers.mapM_layerOf? h.1 (by omega)
    have hbranch := branchOf?_present.mpr ⟨layers,hlayers,(rfl : (name,layers) = _)⟩
    obtain ⟨list,hlist,hspecs⟩ := Option.map_eq_some_iff.mp (rest.mapM_branchOf? h.2 hroom.2)
    rw [BranchSpecs.toJson_cons,List.mapM_cons,hbranch,hlist]
    simp [BranchSpecs.ofList,hspecs]

end

/-- All floats of the fields are finite. -/
def LayerFields.IsFinite (f : LayerFields) : Prop := ∀ x ∈ f.singles, x.isFinite

instance : DecidablePred LayerFields.IsFinite := fun f =>
  inferInstanceAs (Decidable (∀ x ∈ f.singles, x.isFinite))

theorem LayerFields.of_layerOf? {f : LayerFields} {branches : Option Json} {room : ℕ}
    {r : LayerFields × BranchSpecs}
    (h : layerOf? (room + 1) (.object (present (f.members branches))) = some r) :
    f.height ≤ room + 1 ∧ f.IsFinite ∧
      ∃ inside, optional? (branchesOf? room) .nil branches = some inside := by
  obtain ⟨attributes,weights,bias,inside,hattributes,hweights,hbias,hinside,-⟩ :=
    layerOf?_present.mp h
  obtain ⟨haroom,ha⟩ := of_optional?_attributes hattributes
  obtain ⟨hwroom,hw⟩ := of_optional?_tensor hweights
  obtain ⟨hbroom,hb⟩ := of_optional?_tensor hbias
  refine ⟨?_,fun x hx => ?_,inside,hinside⟩
  · rw [height]
    have := max_le haroom (max_le hwroom hbroom)
    omega
  · rcases List.mem_append.mp hx with hx | hx
    · exact ha x hx
    · exact (List.mem_append.mp hx).elim (hw x) (hb x)

mutual

theorem LayerSpecs.of_mapM_layerOf? (specs : LayerSpecs) {room : ℕ}
    {r : List (LayerFields × BranchSpecs)} (h : specs.toJson.mapM (layerOf? room) = some r) :
    specs.height ≤ room ∧ specs.All LayerFields.IsFinite := by
  cases specs with
  | nil => exact ⟨Nat.zero_le _,trivial⟩
  | cons f branches rest =>
    rw [LayerSpecs.toJson_cons,List.mapM_cons] at h
    obtain ⟨layer,hlayer,h⟩ := Option.bind_eq_some_iff.mp h
    obtain ⟨layers,hlayers,-⟩ := Option.bind_eq_some_iff.mp h
    obtain ⟨hafter,hrest⟩ := rest.of_mapM_layerOf? hlayers
    cases room with
    | zero => cases hlayer
    | succ room =>
      obtain ⟨hheight,hf,inside,hinside⟩ := LayerFields.of_layerOf? hlayer
      have hbranches : branches.height ≤ room ∧ branches.All LayerFields.IsFinite := by
        have hmap : ∀ n list, branches.toJson.mapM (branchOf? n) = some list →
            branches.height ≤ n + 1 ∧ branches.All LayerFields.IsFinite :=
          fun n list h => branches.of_mapM_branchOf? h
        cases branches with
        | nil => exact ⟨Nat.zero_le _,trivial⟩
        | cons name layers others =>
          cases room with
          | zero => cases hinside
          | succ room =>
            obtain ⟨list,hlist,-⟩ := Option.map_eq_some_iff.mp hinside
            exact hmap room list hlist
      refine ⟨?_,hf,hbranches.2,hrest⟩
      simp only [LayerSpecs.height]
      omega

theorem BranchSpecs.of_mapM_branchOf? (specs : BranchSpecs) {room : ℕ}
    {r : List (String × LayerSpecs)} (h : specs.toJson.mapM (branchOf? room) = some r) :
    specs.height ≤ room + 1 ∧ specs.All LayerFields.IsFinite := by
  cases specs with
  | nil => exact ⟨Nat.zero_le _,trivial⟩
  | cons name layers rest =>
    rw [BranchSpecs.toJson_cons,List.mapM_cons] at h
    obtain ⟨branch,hbranch,h⟩ := Option.bind_eq_some_iff.mp h
    obtain ⟨list,hlist,-⟩ := Option.bind_eq_some_iff.mp h
    obtain ⟨hafter,hrest⟩ := rest.of_mapM_branchOf? hlist
    cases room with
    | zero => cases hbranch
    | succ room =>
      obtain ⟨inside,hinside,-⟩ := branchOf?_present.mp hbranch
      cases room with
      | zero => cases hinside
      | succ room =>
        obtain ⟨list,hlist,-⟩ := Option.map_eq_some_iff.mp hinside
        obtain ⟨hheight,hlayers⟩ := layers.of_mapM_layerOf? hlist
        refine ⟨?_,hlayers,hrest⟩
        simp only [BranchSpecs.height]
        omega

end

/-! ### Descriptions -/

namespace Description

def height (d : Description) : ℕ := 2 + d.layers.height

theorem ofJson?_toJson {d r : Description} :
    ofJson? d.toJson = some r ↔ ∃ shape layers,
      toList? (fun _ => Json.toNat?) (nestingLimit - 1) (.array (d.inputShape.map Json.ofNat)) =
        some shape ∧
      layersOf? (nestingLimit - 1) (.array d.layers.toJson) = some layers ∧
      ⟨d.name,shape,layers⟩ = r := by
  have hrecord : record? ["name","input_shape","layers"] nestingLimit d.toJson =
      some (nestingLimit - 1,[some (.ofString d.name),some (.array (d.inputShape.map Json.ofNat)),
        some (.array d.layers.toJson)]) := by
    rw [toJson,ofFields_eq_present]
    exact record?_present [("name",some _),("input_shape",some _),("layers",some _)]
      (show List.Nodup ["name","input_shape","layers"] by decide) (nestingLimit - 1)
  simp [ofJson?,hrecord,Option.bind_eq_some_iff,toText?,ofString]

/-- A legible description that is not too deep is read from its own document. -/
theorem ofJson?_toJson_of_legible {d : Description} (hshape : ∀ n ∈ d.inputShape, n < 2 ^ (64 : ℕ))
    (hlayers : d.layers.All LayerFields.Legible) (hheight : d.height ≤ nestingLimit) :
    ofJson? d.toJson = some d := by
  have hread : toList? (fun _ => Json.toNat?) (nestingLimit - 1)
      (.array (d.inputShape.map Json.ofNat)) = some (d.inputShape.map id) :=
    toList?_map fun n hn => toNat?_ofNat (hshape n hn)
  rw [List.map_id] at hread
  have hroom : d.layers.height ≤ 125 := by
    simp only [height,nestingLimit] at hheight
    omega
  exact ofJson?_toJson.mpr ⟨_,_,hread,d.layers.mapM_layerOf? hlayers hroom,rfl⟩

theorem of_ofJson?_toJson {d r : Description} (h : ofJson? d.toJson = some r) :
    d.layers.All LayerFields.IsFinite ∧ d.height ≤ nestingLimit := by
  obtain ⟨shape,layers,-,hlayers,-⟩ := ofJson?_toJson.mp h
  obtain ⟨list,hlist,-⟩ := Option.map_eq_some_iff.mp hlayers
  obtain ⟨hheight,hfinite⟩ := d.layers.of_mapM_layerOf? hlist
  have hroom : d.layers.height ≤ 125 := hheight
  refine ⟨hfinite,?_⟩
  simp only [height,nestingLimit]
  omega

end Description
end Sensitivity
