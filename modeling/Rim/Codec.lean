import Rim.Registry

/-!
# Encoding and decoding with a registry

* `Registry.encode`: a valid record as octets. Nothing but the registered variants matters.
* `Codec`: the shapes in force at one time, and whether unknown fields are errors.
* `Codec.decode`: a record from octets. It is not validated.
* `UnsignedCorim.toTagged`, `Codec.decodeTagged`: manifests under their tag.

Each call of `encode` and `decode` is counted. Tagged calls are not, but the unknown fields they
pass over are.
-/

namespace Rim

/-! ## Encoding -/

/-- The value of a record that has to be valid, with the record's name in front of an error. -/
def Record.encodeValid {R : Type} [Record R] (f : Form) (types : TypeTable) (r : R) :
    Except EncodingError f.Value :=
  Except.mapError (.record (Record.name R)) do
    (Record.validate r).mapError .invalid
    Record.encode f types r

namespace Registry

/-- The octets of a valid record. -/
def encode {R : Type} [Record R] (reg : Registry) (f : Form) (r : R) :
    Except EncodingError Bytes × Registry :=
  let result := (Record.encodeValid f reg.types r).map f.print
  let produced := result.toOption.map (·.length)
  (result, { reg with counters := reg.counters.noteEncode f produced })

end Registry

/-- The octets of a valid manifest under its tag. -/
def UnsignedCorim.toTagged (types : TypeTable) (m : UnsignedCorim) : Except EncodingError Bytes :=
  (Record.encodeValid .binary types m).map fun v =>
    Cbor.write (.tag TagNumber.unsignedCorim v)

/-! ## Decoding -/

/-- The shapes in force and the treatment of unknown fields. -/
structure Codec where
  bindings : ExtensionMap
  strict : Bool := false

namespace Codec

/-- The codec of a registry's shapes in force now. -/
def ofRegistry (reg : Registry) : Codec := { bindings := reg.bindings }

/-- The codec with the shapes of a profile. -/
def withProfile (c : Codec) (p : Profile) : Codec := { c with bindings := p.shapes }

/-- What a codec decodes with: the registry is looked at when it decodes. -/
def scope (c : Codec) (reg : Registry) : Scope where
  types := reg.types
  profiles id := (reg.profile? id).map (·.shapes)
  bindings := c.bindings
  strict := c.strict

/-- A decode on a registry, which notes the unknown fields passed over. -/
def run {α : Type} (reg : Registry) (d : Decoding α) : Except DecodeError α × Registry :=
  (d.outcome, reg.noteSkipped d.skipped)

/-- The record of some octets, with the record's name in front of an error. -/
def read {R : Type} [Record R] (c : Codec) (reg : Registry) (f : Form) (bs : Bytes) : Decoding R :=
  Decoding.mapError (.record (Record.name R)) do
    let v ← Decoding.ofExcept (f.parse bs)
    Record.decode f (c.scope reg) v

/-- The record of some octets. -/
def decode (R : Type) [Record R] (c : Codec) (reg : Registry) (f : Form) (bs : Bytes) :
    Except DecodeError R × Registry :=
  let (result, reg) := run reg (c.read reg f bs)
  (result, { reg with counters := reg.counters.noteDecode f bs.length result.isOk })

/-- The manifest of some octets under its tag. -/
def decodeTagged (c : Codec) (reg : Registry) (bs : Bytes) :
    Except DecodeError UnsignedCorim × Registry :=
  run reg <| Decoding.mapError (.record (Record.name UnsignedCorim)) do
    let v ← Decoding.ofExcept (Cbor.parse bs)
    let content ← Decoding.ofExcept (Cbor.expectTag TagNumber.unsignedCorim v)
    Record.decode .binary (c.scope reg) content

end Codec

end Rim
