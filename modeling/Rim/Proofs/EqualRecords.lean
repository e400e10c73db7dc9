import Rim.Proofs.Record.Alike
import Rim.Proofs.Record.Octets

/-!
# Equal records are encoded alike

* `Record.encodeValid_congr`: records that are checked and written alike are encoded alike.
* `equal_records_encoded_alike`: equal records come out as the same octets or the same error in both
  forms, whatever else is in the registries. Neither the order in which extensions were set,
  overwritten and deleted nor the way on which a choice was made leaves a trace.
-/

namespace Rim

open Registry

/-- Records that are checked and written alike are encoded alike. -/
theorem Record.encodeValid_congr {R : Type} [Record R] {types others : TypeTable} {x y : R}
    (h : Alike validate (wire R) types others x y) (f : Form) :
    encodeValid f types x = encodeValid f others y := by
  have hencode : encode f types x = encode f others y := h.encode f
  rw [encodeValid, encodeValid, h.validate, hencode]

/-- Equal records are encoded alike in both forms, over any two registries whose tables of variants
agree: their octets are the same, or their errors. Sets that hold the same values under the same
keys are equal, in whatever order the values were set, overwritten and deleted, and choices that are
equal are one value, on whatever way they were made. -/
theorem equal_records_encoded_alike {reg other : Registry} (htypes : reg.types.Agree other.types) :
    (∀ (k : RecordKind) (x y : k.Carrier), Twins x y →
      ∀ f, (reg.encode f x).1 = (other.encode f y).1) ∧
    (∀ s t : ExtensionSet, (∀ e ∈ t.entries, e.2.IsLibrary) →
      (∀ key, s.get key = t.get key) → (s == t) = true) ∧
    ∀ a b : ChoiceValue, a.Made → b.Made → (a == b) = true → a = b := by
  refine ⟨fun k x y h f => ?_, fun s t hlib hget => ?_, fun a b ha hb h => ?_⟩
  · show (Record.encodeValid f reg.types x).map f.print =
      (Record.encodeValid f other.types y).map f.print
    rw [Record.encodeValid_congr (k.alike htypes h)]
  · exact ExtensionSet.beq_of_get hlib hget
  · exact ChoiceValue.eq_of_beq ha.canonical hb.canonical h

/-- The manifest with a note, its tags being prepared for notes that nobody has set. -/
def preparedManifest : UnsignedCorim :=
  { noteManifest with
    tags := noteManifest.tags.map fun c => { c with extensions := .bound noteShape } }

/-- The manifest with a note is encoded alike with and without a shape for what its tags do not
hold, over registries with and without the profile. -/
theorem equal_records_encoded_alike_note :
    noteRegistry.types.Agree withBuiltins.types ∧ Twins noteManifest preparedManifest ∧
    (∀ f, (noteRegistry.encode f noteManifest).1 = (withBuiltins.encode f preparedManifest).1) ∧
    ∀ f, ∃ bs, (noteRegistry.encode f noteManifest).1 = .ok bs := by
  have htypes : noteRegistry.types.Agree withBuiltins.types := fun _ _ => rfl
  have htwins : Twins noteManifest preparedManifest := by
    have hempty : ∀ point, (Part.extensions point .empty).Made := fun _ => ⟨.empty, nofun⟩
    have hshape : ExtensionShape.ofFields noteShape.fields = .ok noteShape := rfl
    have hbound : (Part.extensions .comids (.bound noteShape)).Made := ⟨.bind .empty hshape, nofun⟩
    have hnote : (Part.extensions .corims noteManifest.extensions).Made := by
      have hset : (ExtensionSet.empty.bind noteShape).set "note" (.string "first") =
        .ok noteManifest.extensions := rfl
      exact ⟨.set (.bind .empty hshape) hset, List.forall_mem_singleton.2 trivial⟩
    refine ⟨rfl, List.forall_iff_forall_mem.1 ?_, List.forall_iff_forall_mem.1 ?_,
      List.forall_iff_forall_mem.1 ?_⟩
    · exact ⟨.text "rim", .uuid _, .text "maker", hempty _, .bytes [1, 2], hempty _, hempty _,
        hempty _, hempty _, trivial, hnote⟩
    · exact ⟨.text "rim", .uuid _, .text "maker", hempty _, .bytes [1, 2], hempty _, hempty _,
        hempty _, hbound, trivial, hnote⟩
    · have hnothing : ∀ set : ExtensionSet, ExtensionSet.empty.ShapedAlike set :=
        fun _ h => absurd rfl h
      exact ⟨hnothing _, hnothing _, hnothing _, hnothing _, hnothing _,
        fun _ => ⟨noteShape, noteShape, rfl, rfl, rfl⟩⟩
  refine ⟨htypes, htwins, ?_, fun f => by cases f <;> exact ⟨_, rfl⟩⟩
  exact (equal_records_encoded_alike htypes).1 .unsignedCorim noteManifest preparedManifest htwins

end Rim
