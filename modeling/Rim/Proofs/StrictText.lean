import Rim.Proofs.Record.Octets
import Rim.Proofs.Record.Sites

/-!
# What strict reading of text lets through

* `strict_text_knows_members`: in a text document that a strict codec reads, every member of every
  record at any depth is a fixed field or a declared extension. A value triple is an object with an
  environment and measurements; its other members are passed over, strict or not.
-/

namespace Rim

/-- At any depth of a text document that a strict codec reads, records have members that are known
with the shapes in force, and no other. Value triples have an environment and measurements, and are
read as if they had nothing else. No place is left out: the other fields of records hold no
records. -/
theorem strict_text_knows_members (c : Codec) (hstrict : c.strict = true) (reg : Registry)
    (k : RecordKind) (j : Json) {n : Nat} {r : k.Carrier}
    (h : Record.decode .text (c.scope reg) j = ⟨n, .ok r⟩) :
    (∀ k' v, Site.Within (.record k, j) (.record k', v) → ∃ members, v = .object members ∧
      ∀ e ∈ members, k'.Knows (k.codecFor c reg .text j).bindings e.1) ∧
    (∀ v, Site.Within (.record k, j) (.triple, v) → ∃ members e ms, v = .object members ∧
      ("environment", e) ∈ members ∧ ("measurements", ms) ∈ members ∧
      ∀ sc, ValueTriple.wire.decode .text sc v =
        ValueTriple.wire.decode .text sc (.object [("environment", e), ("measurements", ms)])) ∧
    ∀ k' : RecordKind, ∀ x ∈ Record.fields (R := k'.Carrier),
      x.key.name ∈ k'.nested.map (·.1) ∨ x.wire.Flat := by
  -- The shapes in force are those of the codec of the document's own profile.
  have hread : Site.ReadIn ((k.codecFor c reg .text j).scope reg) (.record k, j) := by
    obtain ⟨members, hmembers, hread⟩ := Record.decode_cases h
    rw [k.scopedTo_profileHint c reg hmembers] at hread
    exact ⟨members, n, r, Json.eq_of_expectObject hmembers, hread⟩
  refine ⟨?_, ?_, RecordKind.flat_of_not_nested⟩
  · intro k' v hwithin
    have hscope : ((k.codecFor c reg .text j).scope reg).strict = true := by
      show (k.codecFor c reg .text j).strict = true
      rw [RecordKind.strict_codecFor, hstrict]
    exact (hread.within hwithin).knows hscope
  · intro v hwithin
    obtain ⟨m, t, ht⟩ := hread.within hwithin
    obtain ⟨⟨e, ms⟩, hparts, -⟩ := Decoding.ofExcept_bind_eq_ok_iff.1 ht
    obtain ⟨members, hv, he, hms⟩ := ValueTriple.mem_of_partsOfJson hparts
    exact ⟨members, e, ms, hv, he, hms, ValueTriple.decode_of_partsOfJson hparts⟩

/-- A value triple in text, with a member too many in its class, or in the triple itself. -/
def strayTriple (inClass : Bool) : Json :=
  let stray : Json.Members := [("extra", .null)]
  .object ([("environment", .object [("class", .object (("vendor", .string "maker") ::
      if inClass then stray else []))]),
    ("measurements", .array [.object [("value", .object [("name", .string "part")])]])] ++
    if inClass then [] else stray)

/-- Triples in text with one value triple. -/
def strayTriples (inClass : Bool) : Json :=
  .object [("reference-values", .array [strayTriple inClass])]

/-- A strict codec refuses a member too many in a class. In a value triple it lets it through
without counting it, and reads the triple as if the member were not there. -/
theorem strict_text_knows_members_stray :
    let c : Codec := ⟨.empty, true⟩
    let sc := c.scope Registry.withBuiltins
    (∃ e, (Record.decode .text sc (strayTriples true) : Decoding Triples) = ⟨0, .error e⟩ ∧
      e.root = .unknownField "class" "extra") ∧
    (∃ r, (Record.decode .text sc (strayTriples false) : Decoding Triples) = ⟨0, .ok r⟩ ∧
      r.referenceValues.length = 1) ∧
    ∃ members e ms, strayTriple false = .object members ∧ members.length = 3 ∧
      ValueTriple.wire.decode .text sc (strayTriple false) =
        ValueTriple.wire.decode .text sc (.object [("environment", e), ("measurements", ms)]) := by
  intro c sc
  obtain ⟨r, hr, hlength⟩ : ∃ r, (Record.decode .text sc (strayTriples false) :
      Decoding Triples) = ⟨0, .ok r⟩ ∧ r.referenceValues.length = 1 := ⟨_, rfl, rfl⟩
  obtain ⟨-, htriples, -⟩ :=
    strict_text_knows_members c rfl Registry.withBuiltins .triples (strayTriples false) hr
  have hinside : Site.Inside (.record .triples, strayTriples false) (.triple, strayTriple false) :=
    .member (List.Mem.head _) (List.Mem.head _) ⟨rfl, _, rfl, List.mem_singleton_self _⟩
  obtain ⟨members, e, ms, hmembers, -, -, hsame⟩ := htriples _ (.single hinside)
  refine ⟨⟨_, rfl, rfl⟩, ⟨r, hr, hlength⟩, members, e, ms, hmembers, ?_, hsame sc⟩
  obtain rfl := Json.object.inj hmembers
  rfl

end Rim
