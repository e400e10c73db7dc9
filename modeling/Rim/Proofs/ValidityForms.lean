import Rim.Proofs.Record.Octets

/-!
# Validity windows in both forms

* `Validity.whole_of_validate`: the ends of a valid window are whole seconds.
* `Validity.inFourDigits_of_decode`: a window that is read from its text has years of four digits.
* `valid_window_agrees`: a valid window comes back from the binary form always, and from the text
  form exactly when its years have four digits.
-/

namespace Rim

namespace Validity

/-- The ends of a window. -/
def times (w : Validity) : List Instant := w.notBefore.toList ++ w.notAfter.toList

theorem whole_of_field {name : String} {t : Instant}
    (h : Validation.field name t.validate = .ok ()) : t.nanos = 0 := by
  have hvalid : t.validate = .ok () := Except.mapError_eq_ok_iff.1 h
  unfold Instant.validate Validation.require at hvalid
  split at hvalid
  next hwhole => simpa using hwhole
  next => cases hvalid

/-- The ends of a valid window are whole seconds. -/
theorem whole_of_validate {w : Validity} (h : w.validate = .ok ()) :
    ∀ t ∈ w.times, t.nanos = 0 := by
  obtain ⟨notBefore, notAfter⟩ := w
  cases notAfter with
  | none => cases h
  | some last =>
    obtain ⟨_, hlast, h⟩ := Except.bind_eq_ok_iff.1 h
    have hlast := whole_of_field hlast
    cases notBefore with
    | none => simpa [times] using hlast
    | some first =>
      obtain ⟨_, hfirst, -⟩ := Except.bind_eq_ok_iff.1 h
      have hfirst := whole_of_field hfirst
      simpa [times] using ⟨hfirst, hlast⟩

/-! ## What is written of a window -/

/-- The value of a time. -/
def timeValue : (f : Form) → Instant → f.Value
  | .binary, t => Cbor.tag TagNumber.epochTime (Cbor.ofInt t.seconds)
  | .text, t => Json.string (Rfc3339.render t)

/-- The entries of a window: its ends, as far as they are there. -/
def entries (f : Form) (w : Validity) : List (FieldKey × f.Value) :=
  w.notBefore.toList.map (fun t => (⟨0, "not-before"⟩, timeValue f t)) ++
    w.notAfter.toList.map fun t => (⟨1, "not-after"⟩, timeValue f t)

/-- Every window is written. -/
theorem encode_eq (f : Form) (types : TypeTable) (w : Validity) :
    Record.encode f types w = .ok (f.record (w.entries f)) := by
  obtain ⟨notBefore, notAfter⟩ := w
  cases notBefore <;> cases notAfter <;> cases f <;> rfl

theorem length_write_timeValue_le (t : Instant) :
    (Cbor.write (timeValue .binary t)).length ≤ 18 := by
  have htag := Cbor.length_head_le 6 TagNumber.epochTime.toNat
  have hcontent : (Cbor.write (.ofInt t.seconds)).length ≤ 9 := by
    unfold Cbor.ofInt
    split <;> exact Cbor.length_head_le _ _
  simp only [timeValue, Cbor.write, List.length_append]
  omega

/-- The octets of a window are few. -/
theorem sized_record (w : Validity) :
    Form.Sized .binary (Form.binary.record (w.entries .binary)) := by
  -- At most two entries of at most 27 octets each, behind a head of nine.
  have hcount : (w.entries .binary).length ≤ 2 := by
    obtain ⟨notBefore, notAfter⟩ := w
    cases notBefore <;> cases notAfter <;> simp [entries]
  have hentries : ∀ e ∈ (w.entries .binary).map fun e => (Cbor.ofInt64 e.1.slot, e.2),
      (Cbor.write e.1).length + (Cbor.write e.2).length ≤ 27 := by
    intro e he
    obtain ⟨d, hd, rfl⟩ := List.mem_map.1 he
    have hkey : (Cbor.write (Cbor.ofInt64 d.1.slot)).length ≤ 9 := by
      unfold Cbor.ofInt64
      split <;> exact Cbor.length_head_le _ _
    have hvalue : (Cbor.write d.2).length ≤ 18 := by
      rcases List.mem_append.1 hd with hd | hd
      all_goals
        obtain ⟨t, -, rfl⟩ := List.mem_map.1 hd
        exact length_write_timeValue_le t
    exact Nat.add_le_add hkey hvalue
  have hbody := Cbor.length_writeEntries_le hentries
  have hhead := Cbor.length_head_le 5
    ((w.entries .binary).map fun e => (Cbor.ofInt64 e.1.slot, e.2)).length
  rw [List.length_map] at hbody hhead
  show (Cbor.head 5 _ ++ Cbor.writeEntries
    ((w.entries .binary).map fun e => (Cbor.ofInt64 e.1.slot, e.2))).length < 18446744073709551616
  rw [List.length_append, List.length_map]
  omega

/-! ## What is read of a window -/

/-- A time that is read from its text has a year of four digits. -/
theorem inFourDigits_of_read {sc : Scope} {t u : Instant} {n : Nat}
    (h : Instant.coding.toWire.decode .text sc (timeValue .text t) = ⟨n, .ok u⟩) :
    t.InFourDigits := by
  by_contra hyear
  obtain ⟨e, he⟩ := Instant.ofJson_render_error hyear
  have hread : Instant.ofJson (Json.string (Rfc3339.render t)) = .ok u :=
    (Decoding.ofExcept_eq_ok_iff.1 h).2
  rw [he] at hread
  cases hread

/-- A window whose text is read has years of four digits only. -/
theorem inFourDigits_of_decode {sc : Scope} {w y : Validity} {n : Nat}
    (h : Record.decode .text sc (Form.text.record (w.entries .text)) = ⟨n, .ok y⟩) :
    ∀ t ∈ w.times, t.InFourDigits := by
  have hnames : ((w.entries .text).map fun e => e.1.name).Nodup := by
    obtain ⟨notBefore, notAfter⟩ := w
    cases notBefore <;> cases notAfter <;> simp [entries]
  obtain ⟨members, hmembers, hdecode⟩ := Record.decode_cases h
  rw [Form.members_record hnames] at hmembers
  obtain rfl := Except.ok.inj hmembers
  -- A text that is read has been read entry by entry, so each end was read from its own text.
  have hread : ∀ (x : Field Validity) (v : Json), x ∈ Record.fields →
      (x.key, v) ∈ w.entries .text → ∃ m b, x.wire.decode .text (sc.scopedTo _) v = ⟨m, .ok b⟩ :=
    fun x v hx hv => Record.exists_decode_of_mem hdecode (List.mem_map_of_mem hv)
      (Form.text.readKey_rawKey x.key) (Record.field?_of_mem hx)
  intro t ht
  rcases List.mem_append.1 ht with ht | ht
  · have hentry : (⟨0, "not-before"⟩, timeValue .text t) ∈ w.entries .text :=
      List.mem_append_left _ (List.mem_map_of_mem ht)
    obtain ⟨m, b, hb⟩ := hread _ _ (List.mem_cons_self) hentry
    exact inFourDigits_of_read hb
  · have hentry : (⟨1, "not-after"⟩, timeValue .text t) ∈ w.entries .text :=
      List.mem_append_right _ (List.mem_map_of_mem ht)
    obtain ⟨m, b, hb⟩ := hread _ _ (List.mem_cons_of_mem _ List.mem_cons_self) hentry
    exact inFourDigits_of_read hb

/-- A window of whole seconds, with years of four digits in the text form, comes back. -/
theorem returns_of_times {f : Form} {sc : Scope} {w : Validity}
    (h : ∀ t ∈ w.times, t.Representable ∧ t.nanos = 0 ∧ (f = .text → t.InFourDigits)) :
    (Record.wire Validity).Returns f sc w := by
  refine Validity.returns fun p hp => ?_
  rcases List.mem_append.1 hp with hp | hp
  · obtain ⟨t, ht, rfl⟩ := List.mem_map.1 hp
    exact ⟨h t (List.mem_append_left _ ht), trivial⟩
  · obtain ⟨t, ht, rfl⟩ := List.mem_map.1 hp
    exact ⟨h t (List.mem_append_right _ ht), trivial⟩

/-- The octets of a valid window. -/
theorem encode_octets {w : Validity} (hvalid : w.validate = .ok ()) (f : Form) (reg : Registry) :
    (reg.encode f w).1 = .ok (f.print (f.record (w.entries f))) := by
  show (Except.mapError _ ((w.validate.mapError .invalid) >>= fun _ =>
    Record.encode f reg.types w)).map f.print = _
  rw [hvalid, encode_eq]
  rfl

/-- The octets of a window that comes back from its value are read. -/
theorem decode_octets {f : Form} {c : Codec} {reg : Registry} {w : Validity}
    (hvalid : w.validate = .ok ()) (h : (Record.wire Validity).Returns f (c.scope reg) w)
    (hsize : f.Sized (f.record (w.entries f))) :
    (c.decode Validity reg f (f.print (f.record (w.entries f)))).1 = .ok w := by
  have hlength : f = .binary → (f.print (f.record (w.entries f))).length < UInt64.size := by
    rintro rfl
    exact hsize
  have hdepth : 3 ≤ f.maxDepth := by cases f <;> decide
  have hwrites : (Record.wire Validity).Writes f (c.scope reg).types 3 w := Validity.writes w
  obtain ⟨y, hy, hsame⟩ := Codec.read_encode h hwrites hdepth (encode_octets hvalid f reg) hlength
  obtain rfl : y = w := eq_of_beq hsame
  show (c.read reg f _).outcome = .ok y
  rw [hy]

/-- A window whose text is read has been read from its value. -/
theorem exists_decode_of_octets {c : Codec} {reg : Registry} {w y : Validity}
    (h : (c.decode Validity reg .text (Form.text.print (Form.text.record (w.entries .text)))).1 =
      .ok y) :
    ∃ n, Record.decode .text (c.scope reg) (Form.text.record (w.entries .text)) = ⟨n, .ok y⟩ := by
  have hwrites : (Record.wire Validity).Writes .text (c.scope reg).types 3 w := Validity.writes w
  have hreadable : Form.text.Readable Form.text.maxDepth (Form.text.record (w.entries .text)) :=
    (hwrites _ (encode_eq .text _ w)).mono (by decide)
  have hread := Decoding.eq_of_outcome (d := c.read (R := Validity) reg .text _) h
  obtain ⟨m, k, v, hparse, hdecode, -⟩ :=
    Decoding.bind_eq_ok_iff.1 (Decoding.mapError_eq_ok_iff.1 hread)
  have hv := (Decoding.ofExcept_eq_ok_iff.1 hparse).2
  rw [Form.parse_print hreadable trivial] at hv
  obtain rfl := Except.ok.inj hv
  exact ⟨k, hdecode⟩

end Validity

/-- A valid window comes back from the binary form, whatever the codec. It has a text form too, but
comes back from that exactly when its years have four digits. -/
theorem valid_window_agrees {w : Validity} (hrange : ∀ t ∈ w.times, t.Representable)
    (hvalid : w.validate = .ok ()) (c : Codec) (reg : Registry) :
    (∃ bs, (reg.encode .binary w).1 = .ok bs ∧
      (c.decode Validity reg .binary bs).1 = .ok w) ∧
    ∃ bs, (reg.encode .text w).1 = .ok bs ∧
      ((c.decode Validity reg .text bs).1 = .ok w ↔ ∀ t ∈ w.times, t.InFourDigits) := by
  have hwhole := Validity.whole_of_validate hvalid
  refine ⟨⟨_, Validity.encode_octets hvalid .binary reg, ?_⟩,
    ⟨_, Validity.encode_octets hvalid .text reg, fun h => ?_, fun hyears => ?_⟩⟩
  · refine Validity.decode_octets hvalid (Validity.returns_of_times fun t ht => ?_) w.sized_record
    exact ⟨hrange t ht, hwhole t ht, fun hf => by cases hf⟩
  · obtain ⟨n, hdecode⟩ := Validity.exists_decode_of_octets h
    exact Validity.inFourDigits_of_decode hdecode
  · refine Validity.decode_octets hvalid (Validity.returns_of_times fun t ht => ?_) trivial
    exact ⟨hrange t ht, hwhole t ht, fun _ => hyears t ht⟩

/-- The last second of the year 9999 and the next. -/
def newYearWindow : Validity := ⟨some ⟨253402300799, 0⟩, some ⟨253402300800, 0⟩⟩

/-- The window into the year 10000 is valid and comes back from the binary form only. -/
theorem new_year_window_from_binary_only :
    newYearWindow.validate = .ok () ∧
    (∃ bs, (Registry.withBuiltins.encode .binary newYearWindow).1 = .ok bs ∧
      ((Codec.ofRegistry .withBuiltins).decode Validity .withBuiltins .binary bs).1 =
        .ok newYearWindow) ∧
    ∃ bs, (Registry.withBuiltins.encode .text newYearWindow).1 = .ok bs ∧
      ((Codec.ofRegistry .withBuiltins).decode Validity .withBuiltins .text bs).1 ≠
        .ok newYearWindow := by
  have hvalid : newYearWindow.validate = .ok () := rfl
  obtain ⟨hbinary, bs, hbs, hread⟩ :=
    valid_window_agrees (show ∀ t ∈ newYearWindow.times, t.Representable by decide) hvalid
      (Codec.ofRegistry .withBuiltins) .withBuiltins
  refine ⟨hvalid, hbinary, bs, hbs, fun h => ?_⟩
  exact absurd (hread.1 h) (by decide)

end Rim
