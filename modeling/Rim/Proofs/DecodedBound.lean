import Rim.Proofs.Record.Binding
import Rim.Proofs.Record.Document
import Rim.Proofs.Record.Octets
import Rim.Proofs.Record.ReadBound

/-!
# Decoded records come back bound

* `RecordKind.AsRead.rebind_iff`: binding a document that has been read again changes nothing
  exactly if it is bound.
* `decoded_sets_bound_iff`: a decoded record is bound throughout to the shapes in force exactly if
  there is no shape for triples, or every tag of the document carries triples. A tag that does not
  comes back with triples that are not bound.
-/

namespace Rim

/-- Binding the document again changes nothing exactly if it is bound. -/
theorem RecordKind.AsRead.rebind_iff {f : Form} {k : RecordKind} {m : ExtensionMap} {v : f.Value}
    {r : k.Carrier} (h : k.AsRead m f v r) : k.rebind m r = r ↔ k.TriplesBindable m f v := by
  show Extensible.bind m r = r ↔ _
  rw [Graph.bind_eq_self_iff, ← h.bound_iff]
  constructor
  · intro hsettled p hp
    cases p with
    | extensions point set =>
      rcases h.everySet _ hp with hset | ⟨rfl, rfl⟩
      · exact hset.bound
      · -- Binding gives an empty set of triples its shape, if there is one.
        have hempty : ExtensionSet.empty.bindOptional (m.find? .triples) = .empty := hsettled _ hp
        have hbound := ExtensionSet.boundTo_bindOptional (m.find? .triples)
        rwa [hempty] at hbound
    | _ => trivial
  · exact fun hbound => hbound.imp fun _ _ hset => hset.rebind

/-- A document that has been read is bound throughout to the shapes in force in it, and binding it
again changes nothing, exactly if there is no shape for triples or all its tags carry triples. The
one set that may not be bound is the empty set of a tag's triples. -/
theorem decoded_sets_bound_iff (c : Codec) (reg : Registry) (k : RecordKind) (f : Form)
    (v : f.Value) {n : Nat} {r : k.Carrier}
    (h : Record.decode f (c.scope reg) v = ⟨n, .ok r⟩) :
    let m := (k.codecFor c reg f v).bindings
    (Graph.Bound m r ↔ k.TriplesBindable m f v) ∧ (k.rebind m r = r ↔ k.TriplesBindable m f v) ∧
      Graph.EverySet (fun point set => set.BoundTo (m.find? point) ∨
        point = .triples ∧ set = .empty) r := by
  have hread := k.asRead_of_decode h
  exact ⟨hread.bound_iff, hread.rebind_iff, hread.everySet.imp fun _ _ => Or.imp_left (·.bound)⟩

/-- Triples with a note. -/
def tripleNotes : ExtensionMap :=
  ExtensionMap.empty.put (.own "triples" (Triples.fields.map (·.key))) noteShape

/-- A tag on the wire with a language, and with empty triples if it is to carry some. -/
def languageTag (carries : Bool) : Cbor :=
  .map ((.uint 0, .text "en-GB") :: if carries then [(.uint 4, .map [])] else [])

/-- A tag that carries triples comes back with a set that takes a note. One that does not comes back
without a shape, so that its triples take no note, and binding it again changes it. -/
theorem decoded_sets_bound_iff_language :
    let c : Codec := ⟨tripleNotes, true⟩
    let reg := Registry.withBuiltins
    (∃ r, (Record.decode .binary (c.scope reg) (languageTag true) : Decoding Comid) = ⟨0, .ok r⟩ ∧
      Graph.Bound tripleNotes r ∧ RecordKind.comid.rebind tripleNotes r = r ∧
      ∃ set, r.triples.extensions.set "note" (.string "first") = .ok set) ∧
    ∃ r, (Record.decode .binary (c.scope reg) (languageTag false) : Decoding Comid) = ⟨0, .ok r⟩ ∧
      ¬ Graph.Bound tripleNotes r ∧ RecordKind.comid.rebind tripleNotes r ≠ r ∧
      r.triples.extensions.set "note" (.string "first") = .error (.noShape "note") := by
  intro c reg
  have hcarried : RecordKind.comid.TriplesBindable tripleNotes .binary (languageTag true) := by
    refine .inr fun w hw => ?_
    rw [hw]
    exact ⟨.map [], _, rfl, .uint 4, by simp, rfl⟩
  have habsent : ¬ RecordKind.comid.TriplesBindable tripleNotes .binary (languageTag false) := by
    rintro (hnone | hall)
    · cases hnone
    · obtain ⟨content, entries, hentries, raw, hmem, hkey⟩ := hall _ rfl
      obtain rfl := Except.ok.inj hentries
      obtain ⟨rfl, -⟩ := Prod.mk.inj (List.mem_singleton.1 hmem)
      revert hkey
      decide
  constructor
  · obtain ⟨hbound, hrebind, -⟩ := decoded_sets_bound_iff c reg .comid .binary (languageTag true)
      (n := 0)
      (r := { language := some "en-GB", triples := { extensions := .bound noteShape } }) rfl
    have hall : Graph.Bound tripleNotes _ := hbound.2 hcarried
    -- The set of the triples is among those that are bound.
    obtain ⟨⟨-, htriples⟩, -⟩ := (Comid.everySet_iff _).1 hall
    obtain ⟨-, hset⟩ := (Triples.everySet_iff _).1 htriples
    have hshape : tripleNotes.find? .triples = some noteShape := rfl
    rw [hshape] at hset
    exact ⟨_, rfl, hall, hrebind.2 hcarried, hset.exists_set rfl rfl⟩
  · obtain ⟨hbound, hrebind, -⟩ := decoded_sets_bound_iff c reg .comid .binary (languageTag false)
      (n := 0) (r := { language := some "en-GB" }) rfl
    exact ⟨_, rfl, fun h => habsent (hbound.1 h), fun h => habsent (hrebind.1 h), rfl⟩

end Rim
