import Sensitivity.Description.Format
import Sensitivity.Proofs.Json.Single
import Sensitivity.Proofs.Json.Decode
import Sensitivity.Proofs.Description.Encoding

/-! The documents of descriptions. Every layer is an object of the members that are present, and
every number is one that documents are written with, so that a text gives its document back. -/
namespace Sensitivity

open Json

/-! ### Documents are well formed -/

namespace Json

theorem wellFormed_ofNat (n : ℕ) : (ofNat n).WellFormed := by
  rw [ofNat_eq_number]
  exact .number _ _

theorem wellFormed_ofInt (k : ℤ) : (ofInt k).WellFormed := by
  rw [ofInt_eq_number]
  exact .number _ _

theorem wellFormed_ofSingle (x : Single) : (ofSingle x).WellFormed := by
  by_cases hx : x.isFinite
  · obtain ⟨s,-,hs⟩ := exists_ofSingle hx
    rw [hs]
    exact .number _ _
  · rw [ofSingle,if_neg hx]
    exact .null

theorem wellFormed_map {β : Type} {write : β → Json} (h : ∀ x, (write x).WellFormed) (xs : List β) :
    (Json.array (xs.map write)).WellFormed := by
  refine .array fun j hj => ?_
  obtain ⟨x,-,rfl⟩ := List.mem_map.mp hj
  exact h x

theorem wellFormed_present {fields : List (String × Option Json)}
    (h : ∀ f ∈ fields, ∀ j ∈ f.2, j.WellFormed) : (Json.object (present fields)).WellFormed := by
  refine .object fun m hm => ?_
  obtain ⟨f,hf,hj⟩ := List.mem_filterMap.mp hm
  obtain ⟨j,hmem,rfl⟩ := Option.map_eq_some_iff.mp hj
  exact h f hf j hmem

theorem ofFields_eq_present (fields : List (String × Json)) :
    ofFields fields = .object (present (fields.map fun f => (f.1,some f.2))) := by
  simp [ofFields,present,List.filterMap_map]

theorem wellFormed_ofFields {fields : List (String × Json)} (h : ∀ f ∈ fields, f.2.WellFormed) :
    (ofFields fields).WellFormed := by
  rw [ofFields_eq_present]
  refine wellFormed_present fun f hf j hj => ?_
  obtain ⟨f,hmem,rfl⟩ := List.mem_map.mp hf
  obtain rfl := Option.some.inj hj
  exact h f hmem

end Json

theorem Attribute.wellFormed_toJson (a : Attribute Single) : a.toJson.WellFormed := by
  cases a with
  | int v => exact wellFormed_ofInt v
  | float v => exact wellFormed_ofSingle v
  | text v => exact .string _
  | ints vs => exact wellFormed_map wellFormed_ofInt vs
  | floats vs => exact wellFormed_map wellFormed_ofSingle vs

theorem TensorData.wellFormed_toJson (d : TensorData) : d.toJson.WellFormed := by
  refine wellFormed_ofFields fun f hf => ?_
  rcases List.mem_cons.mp hf with rfl | hf
  · exact wellFormed_map wellFormed_ofNat d.shape
  · obtain rfl := List.mem_singleton.mp hf
    exact wellFormed_map wellFormed_ofSingle d.data

/-! ### The members of a layer -/

namespace LayerFields

def attributesJson (f : LayerFields) : Option Json :=
  if f.attributes.isEmpty then none
  else some (.ofFields (f.attributes.map fun a => (a.1,a.2.toJson)))

/-- The members of a layer, of which only the present ones are written. -/
def members (f : LayerFields) (branches : Option Json) : List (String × Option Json) :=
  [("name",some (.ofString f.name)),("kind",some (.ofString f.kind)),
    ("attributes",f.attributesJson),("weights",f.weights.map TensorData.toJson),
    ("bias",f.bias.map TensorData.toJson),("branches",branches)]

end LayerFields

def BranchSpecs.json? : BranchSpecs → Option Json
  | .nil => none
  | branches => some (.array branches.toJson)

theorem LayerSpecs.toJson_cons (f : LayerFields) (branches : BranchSpecs) (rest : LayerSpecs) :
    (LayerSpecs.cons f branches rest).toJson =
      .object (present (f.members branches.json?)) :: rest.toJson := by
  have hmembers : ∀ b : Option Json, present (f.members b) =
      f.toFields.map (fun m => (some m.1,m.2)) ++ b.toList.map fun j => (some "branches",j) := by
    intro b
    simp only [LayerFields.toFields,LayerFields.members,LayerFields.attributesJson,present]
    cases b <;> cases f.attributes.isEmpty <;> cases f.weights <;> cases f.bias <;> rfl
  rw [hmembers]
  cases branches with
  | nil => simp [LayerSpecs.toJson,ofFields,BranchSpecs.json?]
  | cons name layers others => simp [LayerSpecs.toJson,ofFields,BranchSpecs.json?]

theorem LayerFields.wellFormed_members (f : LayerFields) {branches : Option Json}
    (hbranches : ∀ j ∈ branches, j.WellFormed) :
    (Json.object (present (f.members branches))).WellFormed := by
  refine wellFormed_present fun m hm j hj => ?_
  simp only [members,List.mem_cons,List.not_mem_nil,or_false] at hm
  rcases hm with rfl | rfl | rfl | rfl | rfl | rfl
  · obtain rfl := Option.some.inj hj
    exact .string _
  · obtain rfl := Option.some.inj hj
    exact .string _
  · simp only [attributesJson] at hj
    split at hj
    next => cases hj
    next =>
      obtain rfl := Option.some.inj hj
      refine wellFormed_ofFields fun a ha => ?_
      obtain ⟨a,-,rfl⟩ := List.mem_map.mp ha
      exact a.2.wellFormed_toJson
  · obtain ⟨d,-,rfl⟩ := Option.map_eq_some_iff.mp hj
    exact d.wellFormed_toJson
  · obtain ⟨d,-,rfl⟩ := Option.map_eq_some_iff.mp hj
    exact d.wellFormed_toJson
  · exact hbranches j hj

theorem BranchSpecs.toJson_cons (name : String) (layers : LayerSpecs) (rest : BranchSpecs) :
    (BranchSpecs.cons name layers rest).toJson = .object (present [("name",some (.ofString name)),
      ("layers",some (.array layers.toJson))]) :: rest.toJson := by
  rw [BranchSpecs.toJson,ofFields_eq_present]
  rfl

mutual

theorem LayerSpecs.wellFormed_toJson (specs : LayerSpecs) : ∀ j ∈ specs.toJson, j.WellFormed := by
  cases specs with
  | nil => simp [LayerSpecs.toJson]
  | cons f branches rest =>
    rw [LayerSpecs.toJson_cons]
    intro j hj
    rcases List.mem_cons.mp hj with rfl | hj
    · refine f.wellFormed_members fun j hj => ?_
      have hbranches := branches.wellFormed_toJson
      cases branches with
      | nil => cases hj
      | cons name layers others =>
        obtain rfl := Option.some.inj hj
        exact .array hbranches
    · exact rest.wellFormed_toJson j hj

theorem BranchSpecs.wellFormed_toJson (specs : BranchSpecs) : ∀ j ∈ specs.toJson, j.WellFormed := by
  cases specs with
  | nil => simp [BranchSpecs.toJson]
  | cons name layers rest =>
    rw [BranchSpecs.toJson_cons]
    intro j hj
    rcases List.mem_cons.mp hj with rfl | hj
    · refine wellFormed_present fun m hm j hj => ?_
      simp only [List.mem_cons,List.not_mem_nil,or_false] at hm
      rcases hm with rfl | rfl <;> obtain rfl := Option.some.inj hj
      · exact .string _
      · exact .array layers.wellFormed_toJson
    · exact rest.wellFormed_toJson j hj

end

theorem Description.wellFormed_toJson (d : Description) : d.toJson.WellFormed := by
  refine wellFormed_ofFields fun m hm => ?_
  simp only [List.mem_cons,List.not_mem_nil,or_false] at hm
  rcases hm with rfl | rfl | rfl
  · exact .string _
  · exact wellFormed_map wellFormed_ofNat d.inputShape
  · exact .array d.layers.wellFormed_toJson

end Sensitivity
