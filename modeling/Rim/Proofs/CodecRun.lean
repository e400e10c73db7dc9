import Rim.Proofs.OwnProfile
import Rim.Proofs.Record.PassedOver
import Rim.Proofs.Setup

/-!
# Telemetry is an account of a run

* `CodecCall`, `CodecCall.perform`, `Registry.serve`: calls of codecs over one registry, and what
  they answer in turn.
* `CodecCall.passedOver`: the unknown fields that a call passes over, by their places.
* `Totals.ofEvents`: what there is to count in a run, told from its calls and answers alone.
* `Registry.serve_snd`: the counters have grown by the words of these totals.
* `telemetry_exact`: after setup they are these totals, and those of two runs on registries with the
  same setup make those of one run after the other.
-/

namespace Rim

/-! ## Calls -/

/-- A call of a codec with its arguments. -/
inductive CodecCall where
  /-- A valid record as octets. It does not matter which codec writes it. -/
  | encode (k : RecordKind) (f : Form) (r : k.Carrier)
  | decode (c : Codec) (k : RecordKind) (f : Form) (bs : Bytes)
  | encodeTagged (m : UnsignedCorim)
  | decodeTagged (c : Codec) (bs : Bytes)
  /-- A record as a value; it is not validated. -/
  | encodeRaw (k : RecordKind) (f : Form) (r : k.Carrier)
  | decodeRaw (c : Codec) (k : RecordKind) (f : Form) (v : f.Value)

namespace CodecCall

/-- What a call gives back. -/
abbrev Answer : CodecCall → Type
  | encode .. => Except EncodingError Bytes
  | decode _ k _ _ => Except DecodeError k.Carrier
  | encodeTagged _ => Except EncodingError Bytes
  | decodeTagged .. => Except DecodeError UnsignedCorim
  | encodeRaw _ f _ => Except EncodingError f.Value
  | decodeRaw _ k _ _ => Except DecodeError k.Carrier

/-- Makes a call. -/
def perform : (call : CodecCall) → Registry → call.Answer × Registry
  | encode _ f r, reg => reg.encode f r
  | decode c k f bs, reg => c.decode k.Carrier reg f bs
  | encodeTagged m, reg => (m.toTagged reg.types, reg)
  | decodeTagged c bs, reg => c.decodeTagged reg bs
  | encodeRaw _ f r, reg => (Record.encode f reg.types r, reg)
  | decodeRaw c _ f v, reg => Codec.run reg (Record.decode f (c.scope reg) v)

/-- The places of the unknown fields that a call passes over. -/
def passedOver : CodecCall → Registry → Set (List Nat)
  | decode c k f bs, reg =>
    {p | ∃ v, f.parse bs = .ok v ∧ PassesOver f (c.scope reg) (.record k) v p}
  | decodeTagged c bs, reg =>
    {p | ∃ v, Cbor.parse bs = .ok v ∧
      ∃ content, Cbor.expectTag TagNumber.unsignedCorim v = .ok content ∧
        PassesOver .binary (c.scope reg) (.record .unsignedCorim) content p}
  | decodeRaw c k f v, reg => {p | PassesOver f (c.scope reg) (.record k) v p}
  | encode .., _ | encodeTagged _, _ | encodeRaw .., _ => ∅

end CodecCall

/-- A call that has been made, with its answer. -/
abbrev CodecEvent := (call : CodecCall) × call.Answer

/-- Makes calls in turn. -/
def Registry.serve (reg : Registry) : List CodecCall → List CodecEvent × Registry
  | [] => ([], reg)
  | call :: rest =>
    let (answer, next) := call.perform reg
    let (events, last) := next.serve rest
    (⟨call, answer⟩ :: events, last)

/-! ## What there is to count -/

namespace CodecEvent

/-- A record has been encoded in a form. -/
def isEncoded (f : Form) : CodecEvent → Bool
  | ⟨.encode _ g _, .ok _⟩ => f = g
  | _ => false

/-- A record has been decoded from a form. -/
def isDecoded (f : Form) : CodecEvent → Bool
  | ⟨.decode _ _ g _, .ok _⟩ => f = g
  | _ => false

def isEncodeFailure : CodecEvent → Bool
  | ⟨.encode .., .error _⟩ => true
  | _ => false

def isDecodeFailure : CodecEvent → Bool
  | ⟨.decode .., .error _⟩ => true
  | _ => false

/-- The length of what an encode has returned. -/
def produced : CodecEvent → Nat
  | ⟨.encode .., .ok bs⟩ => bs.length
  | _ => 0

/-- The length of what has been given to a decode. -/
def consumed : CodecEvent → Nat
  | ⟨.decode _ _ _ bs, _⟩ => bs.length
  | _ => 0

end CodecEvent

/-- The numbers that the counters stand for. -/
@[ext] structure Totals where
  cborEncoded : Nat := 0
  cborDecoded : Nat := 0
  jsonEncoded : Nat := 0
  jsonDecoded : Nat := 0
  bytesProduced : Nat := 0
  bytesConsumed : Nat := 0
  encodeFailures : Nat := 0
  decodeFailures : Nat := 0
  unknownFieldsSkipped : Nat := 0

namespace Totals

/-- The totals of a run on a registry. -/
noncomputable def ofEvents (reg : Registry) (events : List CodecEvent) : Totals where
  cborEncoded := events.countP (·.isEncoded .binary)
  cborDecoded := events.countP (·.isDecoded .binary)
  jsonEncoded := events.countP (·.isEncoded .text)
  jsonDecoded := events.countP (·.isDecoded .text)
  bytesProduced := (events.map (·.produced)).sum
  bytesConsumed := (events.map (·.consumed)).sum
  encodeFailures := events.countP (·.isEncodeFailure)
  decodeFailures := events.countP (·.isDecodeFailure)
  unknownFieldsSkipped := (events.map fun e => (e.1.passedOver reg).ncard).sum

instance : Add Totals where
  add s t :=
    { cborEncoded := s.cborEncoded + t.cborEncoded
      cborDecoded := s.cborDecoded + t.cborDecoded
      jsonEncoded := s.jsonEncoded + t.jsonEncoded
      jsonDecoded := s.jsonDecoded + t.jsonDecoded
      bytesProduced := s.bytesProduced + t.bytesProduced
      bytesConsumed := s.bytesConsumed + t.bytesConsumed
      encodeFailures := s.encodeFailures + t.encodeFailures
      decodeFailures := s.decodeFailures + t.decodeFailures
      unknownFieldsSkipped := s.unknownFieldsSkipped + t.unknownFieldsSkipped }

theorem ofEvents_append (reg : Registry) (events more : List CodecEvent) :
    ofEvents reg (events ++ more) = ofEvents reg events + ofEvents reg more := by
  show ofEvents reg (events ++ more) = ⟨_, _, _, _, _, _, _, _, _⟩
  simp only [ofEvents, List.countP_append, List.map_append, List.sum_append]

/-- The totals as words of 64 bits. -/
def words (t : Totals) : Counters where
  cborEncoded := .ofNat t.cborEncoded
  cborDecoded := .ofNat t.cborDecoded
  jsonEncoded := .ofNat t.jsonEncoded
  jsonDecoded := .ofNat t.jsonDecoded
  bytesProduced := .ofNat t.bytesProduced
  bytesConsumed := .ofNat t.bytesConsumed
  encodeFailures := .ofNat t.encodeFailures
  decodeFailures := .ofNat t.decodeFailures
  unknownFieldsSkipped := .ofNat t.unknownFieldsSkipped

theorem words_add (s t : Totals) : (s + t).words = s.words.merge t.words := by
  show words ⟨_, _, _, _, _, _, _, _, _⟩ = _
  simp only [words, Counters.merge, UInt64.ofNat_add]

end Totals

/-- The numbers that counters hold. -/
def Counters.totals (c : Counters) : Totals where
  cborEncoded := c.cborEncoded.toNat
  cborDecoded := c.cborDecoded.toNat
  jsonEncoded := c.jsonEncoded.toNat
  jsonDecoded := c.jsonDecoded.toNat
  bytesProduced := c.bytesProduced.toNat
  bytesConsumed := c.bytesConsumed.toNat
  encodeFailures := c.encodeFailures.toNat
  decodeFailures := c.decodeFailures.toNat
  unknownFieldsSkipped := c.unknownFieldsSkipped.toNat

/-- Totals that counters can hold. -/
structure Totals.Fits (t : Totals) : Prop where
  cborEncoded : t.cborEncoded < UInt64.size
  cborDecoded : t.cborDecoded < UInt64.size
  jsonEncoded : t.jsonEncoded < UInt64.size
  jsonDecoded : t.jsonDecoded < UInt64.size
  bytesProduced : t.bytesProduced < UInt64.size
  bytesConsumed : t.bytesConsumed < UInt64.size
  encodeFailures : t.encodeFailures < UInt64.size
  decodeFailures : t.decodeFailures < UInt64.size
  unknownFieldsSkipped : t.unknownFieldsSkipped < UInt64.size

/-- Counters hold totals that fit. -/
theorem Totals.Fits.totals_words {t : Totals} (h : t.Fits) : t.words.totals = t := by
  obtain ⟨h₁, h₂, h₃, h₄, h₅, h₆, h₇, h₈, h₉⟩ := h
  have hword : ∀ n, n < UInt64.size → (UInt64.ofNat n).toNat = n := fun n hn =>
    UInt64.toNat_ofNat_of_lt hn
  simp only [words, Counters.totals, hword, h₁, h₂, h₃, h₄, h₅, h₆, h₇, h₈, h₉]

namespace Counters

theorem zero_merge (c : Counters) : zero.merge c = c := by
  simp [merge, zero]

theorem merge_zero (c : Counters) : c.merge zero = c := by
  simp [merge, zero]

theorem merge_assoc (c d e : Counters) : (c.merge d).merge e = c.merge (d.merge e) := by
  simp only [merge, UInt64.add_assoc]

end Counters

/-! ## One call -/

/-- The registry with other counters. -/
def Registry.withCounters (reg : Registry) (counters : Counters) : Registry := { reg with counters }

@[simp] theorem Registry.withCounters_withCounters (reg : Registry) (c d : Counters) :
    (reg.withCounters c).withCounters d = reg.withCounters d := rfl

@[simp] theorem Registry.counters_withCounters (reg : Registry) (c : Counters) :
    (reg.withCounters c).counters = c := rfl

namespace CodecCall

/-- What is passed over does not depend on the counters. -/
theorem passedOver_withCounters (call : CodecCall) (reg : Registry) (counters : Counters) :
    call.passedOver (reg.withCounters counters) = call.passedOver reg := by
  cases call <;> rfl

/-- Nor does the answer. -/
theorem answer_withCounters (call : CodecCall) (reg : Registry) (counters : Counters) :
    (call.perform (reg.withCounters counters)).1 = (call.perform reg).1 := by
  cases call <;> rfl

/-- The unknown fields that a call notes. -/
def noted : CodecCall → Registry → Nat
  | decode c k f bs, reg => (c.read reg f bs : Decoding k.Carrier).skipped
  | decodeTagged c bs, reg => (c.readTagged reg bs).skipped
  | decodeRaw c k f v, reg => (Record.decode f (c.scope reg) v : Decoding k.Carrier).skipped
  | encode .., _ | encodeTagged _, _ | encodeRaw .., _ => 0

/-- A call notes as many unknown fields as there are places of those that it passes over. -/
theorem encard_passedOver (call : CodecCall) (reg : Registry) :
    (call.passedOver reg).encard = call.noted reg := by
  cases call with
  | encode k f r => exact Set.encard_empty
  | encodeTagged m => exact Set.encard_empty
  | encodeRaw k f r => exact Set.encard_empty
  | decodeRaw c k f v => exact encard_passesOver f (c.scope reg) (.record k) v
  | decode c k f bs =>
    exact Decoding.encard_ofExcept_bind (fun _ => Iff.rfl) fun v =>
      encard_passesOver f (c.scope reg) (.record k) v
  | decodeTagged c bs =>
    exact Decoding.encard_ofExcept_bind (fun _ => Iff.rfl) fun v =>
      Decoding.encard_ofExcept_bind (fun _ => Iff.rfl) fun content =>
        encard_passesOver .binary (c.scope reg) (.record .unsignedCorim) content

theorem ncard_passedOver (call : CodecCall) (reg : Registry) :
    (call.passedOver reg).ncard = call.noted reg := by
  rw [Set.ncard, encard_passedOver, ENat.toNat_natCast]

theorem finite_passedOver (call : CodecCall) (reg : Registry) : (call.passedOver reg).Finite :=
  Set.finite_of_encard_eq_coe (call.encard_passedOver reg)

/-- An encode is counted by its outcome. -/
theorem words_encode (k : RecordKind) (f : Form) (r : k.Carrier)
    (answer : Except EncodingError Bytes) (reg : Registry) (c : Counters) :
    c.noteEncode f (answer.toOption.map (·.length)) =
      c.merge (Totals.ofEvents reg [⟨.encode k f r, answer⟩]).words := by
  have hskipped := ncard_passedOver (.encode k f r) reg
  cases answer with
  | error e =>
    have htotals : Totals.ofEvents reg [⟨.encode k f r, .error e⟩] = { encodeFailures := 1 } :=
      Totals.ext rfl rfl rfl rfl rfl rfl rfl rfl hskipped
    rw [htotals]
    simp [Counters.noteEncode, Counters.merge, Totals.words, Except.toOption]
  | ok bs =>
    have htotals : Totals.ofEvents reg [⟨.encode k f r, .ok bs⟩] =
        { cborEncoded := if f = .binary then 1 else 0
          jsonEncoded := if f = .text then 1 else 0
          bytesProduced := bs.length } := by
      cases f <;> exact Totals.ext rfl rfl rfl rfl rfl rfl rfl rfl hskipped
    rw [htotals]
    cases f <;> simp [Counters.noteEncode, Counters.merge, Totals.words, Except.toOption]

/-- A decode is counted by its outcome, and what it notes whether it succeeds or fails. -/
theorem words_decode (codec : Codec) (k : RecordKind) (f : Form) (bs : Bytes)
    (answer : Except DecodeError k.Carrier) (reg : Registry) (c : Counters) :
    (c.noteSkipped (noted (.decode codec k f bs) reg)).noteDecode f bs.length answer.isOk =
      c.merge (Totals.ofEvents reg [⟨.decode codec k f bs, answer⟩]).words := by
  have hskipped := ncard_passedOver (.decode codec k f bs) reg
  cases answer with
  | error e =>
    have htotals : Totals.ofEvents reg [⟨.decode codec k f bs, .error e⟩] =
        { bytesConsumed := bs.length
          decodeFailures := 1
          unknownFieldsSkipped := noted (.decode codec k f bs) reg } :=
      Totals.ext rfl rfl rfl rfl rfl rfl rfl rfl hskipped
    rw [htotals]
    simp [Counters.noteSkipped, Counters.noteDecode, Counters.merge, Totals.words, Except.isOk,
      Except.toBool]
  | ok r =>
    have htotals : Totals.ofEvents reg [⟨.decode codec k f bs, .ok r⟩] =
        { cborDecoded := if f = .binary then 1 else 0
          jsonDecoded := if f = .text then 1 else 0
          bytesConsumed := bs.length
          unknownFieldsSkipped := noted (.decode codec k f bs) reg } := by
      cases f <;> exact Totals.ext rfl rfl rfl rfl rfl rfl rfl rfl hskipped
    rw [htotals]
    cases f <;> simp [Counters.noteSkipped, Counters.noteDecode, Counters.merge, Totals.words,
      Except.isOk, Except.toBool]

/-- A call that is not counted adds what it notes. -/
theorem words_uncounted (call : CodecCall) (answer : call.Answer) (reg : Registry) (c : Counters)
    (h : Totals.ofEvents reg [⟨call, answer⟩] =
      { unknownFieldsSkipped := (call.passedOver reg).ncard }) :
    c.noteSkipped (call.noted reg) = c.merge (Totals.ofEvents reg [⟨call, answer⟩]).words := by
  rw [h, ncard_passedOver]
  simp [Counters.merge, Totals.words, Counters.noteSkipped]

/-- A call changes the counters, by what there is to count of it. -/
theorem perform_snd (call : CodecCall) (reg : Registry) :
    (call.perform reg).2 = reg.withCounters
      (reg.counters.merge (Totals.ofEvents reg [⟨call, (call.perform reg).1⟩]).words) := by
  cases call with
  | encode k f r => exact congrArg reg.withCounters (words_encode k f r _ reg reg.counters)
  | decode c k f bs => exact congrArg reg.withCounters (words_decode c k f bs _ reg reg.counters)
  | decodeTagged c bs =>
    exact congrArg reg.withCounters (words_uncounted (.decodeTagged c bs) _ reg _ rfl)
  | decodeRaw c k f v =>
    exact congrArg reg.withCounters (words_uncounted (.decodeRaw c k f v) _ reg _ rfl)
  | encodeTagged m =>
    rw [← words_uncounted (.encodeTagged m) _ reg _ rfl]
    simp [noted, Counters.noteSkipped, Registry.withCounters, perform]
  | encodeRaw k f r =>
    rw [← words_uncounted (.encodeRaw k f r) _ reg _ rfl]
    simp [noted, Counters.noteSkipped, Registry.withCounters, perform]

end CodecCall

/-! ## Runs -/

namespace Registry

variable (reg : Registry)

theorem ofEvents_withCounters (counters : Counters) (events : List CodecEvent) :
    Totals.ofEvents (reg.withCounters counters) events = Totals.ofEvents reg events := by
  simp only [Totals.ofEvents, CodecCall.passedOver_withCounters]

theorem serve_cons (call : CodecCall) (rest : List CodecCall) :
    reg.serve (call :: rest) =
      (⟨call, (call.perform reg).1⟩ :: ((call.perform reg).2.serve rest).1,
        ((call.perform reg).2.serve rest).2) := rfl

/-- What calls answer does not depend on the counters. -/
theorem events_withCounters (counters : Counters) (calls : List CodecCall) :
    ((reg.withCounters counters).serve calls).1 = (reg.serve calls).1 := by
  induction calls generalizing counters with
  | nil => rfl
  | cons call rest ih =>
    simp only [serve_cons, CodecCall.perform_snd, CodecCall.answer_withCounters,
      withCounters_withCounters, ih]

/-- Calls made in turn change the counters, by what there is to count of them all. -/
theorem serve_snd (calls : List CodecCall) :
    (reg.serve calls).2 = reg.withCounters
      (reg.counters.merge (Totals.ofEvents reg (reg.serve calls).1).words) := by
  suffices h : ∀ counters, ((reg.withCounters counters).serve calls).2 = reg.withCounters
      (counters.merge (Totals.ofEvents reg (reg.serve calls).1).words) from h reg.counters
  intro counters
  induction calls generalizing counters with
  | nil =>
    show reg.withCounters counters = reg.withCounters (counters.merge Counters.zero)
    rw [Counters.merge_zero]
  | cons call rest ih =>
    simp only [serve_cons, CodecCall.perform_snd, CodecCall.answer_withCounters,
      withCounters_withCounters, counters_withCounters, ofEvents_withCounters, ih,
      events_withCounters]
    rw [Counters.merge_assoc, ← Totals.words_add, ← Totals.ofEvents_append]
    rfl

theorem serve_append (calls more : List CodecCall) :
    (reg.serve (calls ++ more)).1 = (reg.serve calls).1 ++ (reg.serve more).1 := by
  induction calls with
  | nil => rfl
  | cons call rest ih =>
    simp only [List.cons_append, serve_cons, CodecCall.perform_snd, events_withCounters, ih]

/-- Setup leaves the counters as they are. -/
theorem counters_attempts (calls : List SetupCall) :
    (reg.attempts calls).counters = reg.counters := by
  refine attempts_induction (P := fun next => next.counters = reg.counters) rfl ?_
  intro reg next c _ hstep hcounters
  cases hstep <;> exact hcounters

end Registry

/-- Take a registry without variants or with those of the base schema, any setup calls, and any
calls of codecs over it. The counters then hold the totals of the run, as words of 64 bits: the
records encoded and decoded in each form, the failed encodes and decodes, the octets that encodes
have returned and that decodes were given, and the unknown fields passed over, by their places.
Totals that fit are held as they are. The counters of two runs, each on a registry with this setup,
are merged to those of one run after the other on a single registry, where every call answers
alike. -/
theorem telemetry_exact {start : Registry} (hstart : start = .empty ∨ start = .withBuiltins)
    (setup : List SetupCall) (calls more : List CodecCall) :
    let reg := start.attempts setup
    let totals := Totals.ofEvents reg (reg.serve calls).1
    (reg.serve calls).2.counters = totals.words ∧
      (totals.Fits → (reg.serve calls).2.counters.totals = totals) ∧
      (∀ call : CodecCall, (call.passedOver reg).Finite) ∧
      (reg.serve (calls ++ more)).1 = (reg.serve calls).1 ++ (reg.serve more).1 ∧
      (reg.serve (calls ++ more)).2.counters =
        (reg.serve calls).2.counters.merge (reg.serve more).2.counters := by
  intro reg totals
  have hzero : reg.counters = .zero := by
    rw [Registry.counters_attempts]
    rcases hstart with rfl | rfl <;> rfl
  have hcounters : ∀ calls, (reg.serve calls).2.counters =
      (Totals.ofEvents reg (reg.serve calls).1).words := by
    intro calls
    rw [Registry.serve_snd, hzero, Counters.zero_merge]
    rfl
  refine ⟨hcounters calls, fun hfits => ?_, fun call => call.finite_passedOver reg,
    reg.serve_append calls more, ?_⟩
  · rw [hcounters calls]
    exact hfits.totals_words
  · rw [hcounters, hcounters, hcounters, Registry.serve_append, Totals.ofEvents_append,
      Totals.words_add]

/-- A run: a window with an unknown field in front of one that cannot be read, a version that is
written and one that is not, and a raw version with an unknown field. -/
def strayCalls : List CodecCall :=
  [.decode ⟨.empty, false⟩ .validity .binary [0xa2, 0x09, 0xf6, 0x01, 0x61, 0x78],
    .encode .version .binary { value := some "1" },
    .encode .version .text {},
    .decodeRaw ⟨.empty, false⟩ .version .binary (.map [(.uint 7, .null), (.uint 0, .text "1")])]

/-- Both unknown fields are counted, and the raw read is not. A second run of the same calls counts
the same again. -/
theorem telemetry_exact_stray :
    let totals := Totals.ofEvents .withBuiltins (Registry.withBuiltins.serve strayCalls).1
    totals = { cborEncoded := 1, bytesProduced := 4, bytesConsumed := 6,
               encodeFailures := 1, decodeFailures := 1, unknownFieldsSkipped := 2 } ∧
      totals.Fits ∧ (Registry.withBuiltins.serve strayCalls).2.counters.totals = totals ∧
      (Registry.withBuiltins.serve (strayCalls ++ strayCalls)).2.counters =
        (Registry.withBuiltins.serve strayCalls).2.counters.merge
          (Registry.withBuiltins.serve strayCalls).2.counters := by
  intro totals
  obtain ⟨-, hexact, -, -, hmerged⟩ := telemetry_exact (.inr rfl) [] strayCalls strayCalls
  have hskipped : totals.unknownFieldsSkipped = 2 := by
    simp only [totals, Totals.ofEvents, CodecCall.ncard_passedOver]
    rfl
  have htotals : totals = ⟨1, 0, 0, 0, 4, 6, 1, 1, 2⟩ :=
    Totals.ext rfl rfl rfl rfl rfl rfl rfl rfl hskipped
  have hfits : totals.Fits := by
    rw [htotals]
    constructor <;> decide
  exact ⟨htotals, hfits, hexact hfits, hmerged⟩

end Rim
