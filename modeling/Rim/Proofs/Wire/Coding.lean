import Rim.Proofs.Outcome
import Rim.Proofs.Profile.Id
import Rim.Proofs.Text.Base64
import Rim.Digest
import Rim.Record.Entity
import Rim.Record.Mval

/-!
# Plain values are written and read back

* `Coding.Inverse`: what a coding writes of a value is read back as that value.
* `Coding.Total`: something is written of every value, in both forms.
* The codings of the base schema are inverse on all values and total. The coding of profile
  identifiers is so on those that have been parsed.
-/

namespace Rim

/-- What is written of the value in a form is read back as the value. -/
def Coding.Inverse {α : Type} (c : Coding α) (f : Form) (a : α) : Prop :=
  ∀ v, c.encode f a = .ok v → c.decode f v = .ok a

/-! ## Integers -/

namespace Cbor

theorem expectInt_ofInt {n : Int} (hlow : -9223372036854775808 ≤ n)
    (hhigh : n < 9223372036854775808) :
    expectInt (ofInt n) = .ok (Int64.ofInt n) := by
  unfold ofInt
  by_cases hn : 0 ≤ n
  · rw [if_pos hn]
    have hnat : (UInt64.ofNat n.toNat).toNat = n.toNat := by
      rw [UInt64.toNat_ofNat']
      omega
    have hlt : UInt64.ofNat n.toNat < 0x8000000000000000 := by
      rw [UInt64.lt_iff_toNat_lt, hnat]
      show n.toNat < 9223372036854775808
      omega
    have hint : (Int64.ofNat n.toNat) = Int64.ofInt n := by
      rw [← Int64.ofInt_eq_ofNat]
      congr 1
      omega
    simp only [expectInt, if_pos hlt, hnat, hint]
  · rw [if_neg hn]
    have hnat : (UInt64.ofNat (-1 - n).toNat).toNat = (-1 - n).toNat := by
      rw [UInt64.toNat_ofNat']
      omega
    have hlt : UInt64.ofNat (-1 - n).toNat < 0x8000000000000000 := by
      rw [UInt64.lt_iff_toNat_lt, hnat]
      show (-1 - n).toNat < 9223372036854775808
      omega
    have hint : (-1 - ((-1 - n).toNat : Int)) = n := by omega
    simp only [expectInt, if_pos hlt, hnat, hint]

theorem ofInt64_eq (n : Int64) : ofInt64 n = ofInt n.toInt := rfl

theorem expectInt_ofInt64 (n : Int64) : expectInt (ofInt64 n) = .ok n := by
  rw [ofInt64_eq, expectInt_ofInt n.le_toInt n.toInt_lt, Int64.ofInt_toInt]

end Cbor

namespace Json

theorem toInt64?_ofInt64 (n : Int64) : (Number.ofInt64 n).toInt64? = some n := by
  unfold Number.ofInt64
  by_cases hn : 0 ≤ n.toInt
  · have hbound := n.toInt_lt
    have hnat : (UInt64.ofNat n.toInt.toNat).toNat = n.toInt.toNat := by
      rw [UInt64.toNat_ofNat']
      omega
    have hlt : UInt64.ofNat n.toInt.toNat < 0x8000000000000000 := by
      rw [UInt64.lt_iff_toNat_lt, hnat]
      show n.toInt.toNat < 9223372036854775808
      omega
    have hint : Int64.ofNat n.toInt.toNat = n := by
      rw [← Int64.ofInt_eq_ofNat, Int.toNat_of_nonneg hn, Int64.ofInt_toInt]
    simp only [if_pos hn, Number.toInt64?, if_pos hlt, hnat, hint]
  · simp only [if_neg hn, Number.toInt64?]

end Json

/-! ## Plain values -/

namespace Coding

theorem inverse_text (f : Form) (s : String) : text.Inverse f s := by
  intro v hv
  cases f <;> cases hv <;> rfl

theorem inverse_uint (f : Form) (n : UInt64) : uint.Inverse f n := by
  intro v hv
  cases f <;> cases hv <;> rfl

theorem inverse_int (f : Form) (n : Int64) : int.Inverse f n := by
  intro v hv
  cases f with
  | binary =>
    cases hv
    exact Cbor.expectInt_ofInt64 n
  | text =>
    cases hv
    simp [int, Json.expectInt, Json.toInt64?_ofInt64]

theorem inverse_bool (f : Form) (b : Bool) : bool.Inverse f b := by
  intro v hv
  cases f <;> cases hv <;> rfl

theorem readBase64_encode (bs : Bytes) : readBase64 (Base64.encode bs) = .ok bs := by
  rw [readBase64, Base64.decode_encode]
  rfl

theorem inverse_bytes (f : Form) (bs : Bytes) : bytes.Inverse f bs := by
  intro v hv
  cases f with
  | binary =>
    cases hv
    rfl
  | text =>
    cases hv
    exact readBase64_encode bs

theorem inverse_taggedUri (f : Form) (s : String) : taggedUri.Inverse f s := by
  intro v hv
  cases f <;> cases hv <;> rfl

/-- Lists are read back if their elements are. -/
theorem inverse_list {α : Type} {c : Coding α} {f : Form} {xs : List α}
    (h : ∀ x ∈ xs, c.Inverse f x) : (list c).Inverse f xs := by
  intro v hv
  obtain ⟨items, hitems, hv⟩ := Except.bind_eq_ok_iff.1 hv
  obtain rfl := Except.pure_eq_ok_iff.1 hv
  have hboth := (List.forall₂_and_left xs items).2 ⟨h, Except.mapM_eq_ok_iff.1 hitems⟩
  have hback : List.Forall₂ (fun x w => c.decode f w = .ok x) xs items :=
    hboth.imp fun _ _ hx => hx.1 _ hx.2
  show ((f.elements (f.array items)) >>= fun items => decodeFrom (c.decode f) 0 items) = .ok xs
  rw [Form.elements_array]
  exact decodeFrom_of_forall₂ hback.flip 0

end Coding

/-! ## Values of the base schema -/

theorem VersionScheme.inverse_coding (f : Form) (s : VersionScheme) : coding.Inverse f s := by
  intro v hv
  cases f with
  | binary =>
    cases hv
    simp [coding, ofCbor, Cbor.expectUInt, bind, Except.bind, pure, Except.pure]
  | text =>
    cases hv
    simp [coding, ofJson, Json.expectString, bind, Except.bind, pure, Except.pure]

theorem Role.inverse_coding (f : Form) (r : Role) : coding.Inverse f r := by
  intro v hv
  cases f with
  | binary =>
    cases hv
    simp [coding, ofCbor, Cbor.expectUInt, bind, Except.bind, pure, Except.pure]
  | text =>
    cases hv
    simp [coding, ofJson, Json.expectString, bind, Except.bind, pure, Except.pure]

theorem Roles.inverse_coding (f : Form) (roles : Roles) : coding.Inverse f roles :=
  Coding.inverse_list fun r _ => r.inverse_coding f

theorem Svn.inverse_coding (f : Form) (n : Svn) : coding.Inverse f n := by
  intro v hv
  cases f with
  | binary => cases n <;> cases hv <;> rfl
  | text =>
    cases n
    all_goals
      cases hv
      simp [coding, ofJson, Json.expectUInt, Json.Number.toUInt64?, Json.Number.ofUInt64, bind,
        Except.bind, pure, Except.pure]

/-! ## Digests -/

namespace Digest

/-- The name of no algorithm holds the character that stands after it. -/
theorem cut?_name (a : HashAlgorithm) (rest : List Char) :
    Text.cut? ';' (a.name.toList ++ ';' :: rest) = some (a.name.toList, rest) := by
  cases a <;> rfl

theorem ofText_toText (d : Digest) : ofText d.toText = .ok d := by
  have htext : d.toText.toList =
      d.algorithm.name.toList ++ ';' :: (Base64.encode d.value).toList := by
    simp [toText]
  simp [ofText, htext, cut?_name, Coding.readBase64_encode, bind, Except.bind, pure, Except.pure]

theorem inverse_coding (f : Form) (d : Digest) : coding.Inverse f d := by
  intro v hv
  cases f with
  | binary =>
    cases hv
    simp [coding, ofCbor, Cbor.expectArray, Cbor.expectUInt, Cbor.expectBytes, bind, Except.bind,
      pure, Except.pure]
  | text =>
    cases hv
    exact ofText_toText d

end Digest

theorem Digests.inverse_coding (f : Form) (ds : Digests) : coding.Inverse f ds := by
  intro v hv
  have hlist := Coding.inverse_list (fun d (_ : d ∈ ds.entries) => d.inverse_coding f) v hv
  show ((Coding.list Digest.coding).decode f v >>= fun entries => pure ⟨entries⟩) = .ok ds
  rw [hlist]
  rfl

/-! ## Profiles -/

/-- An identifier that has been parsed is read back. -/
theorem ProfileId.inverse_coding {s : String} {id : ProfileId} (h : parse s = .ok id) (f : Form) :
    coding.Inverse f id :=
  fun _ hv => (decode_eq_iff hv).2 (wellFormed_of_parse h)

/-- A parsed identifier is written in both forms. -/
theorem ProfileId.exists_encode {s : String} {id : ProfileId} (h : parse s = .ok id) (f : Form) :
    ∃ v, coding.encode f id = .ok v := by
  obtain ⟨v, hv, -⟩ := decode_encode (wellFormed_of_parse h) f
  exact ⟨v, hv⟩

/-! ## What is written of every value -/

namespace Coding

/-- Something is written of every value. -/
def Total {α : Type} (c : Coding α) : Prop := ∀ f a, ∃ v, c.encode f a = .ok v

theorem total_text : text.Total := fun f _ => by cases f <;> exact ⟨_, rfl⟩

theorem total_uint : uint.Total := fun f _ => by cases f <;> exact ⟨_, rfl⟩

theorem total_int : int.Total := fun f _ => by cases f <;> exact ⟨_, rfl⟩

theorem total_bool : bool.Total := fun f _ => by cases f <;> exact ⟨_, rfl⟩

theorem total_bytes : bytes.Total := fun f _ => by cases f <;> exact ⟨_, rfl⟩

theorem total_taggedUri : taggedUri.Total := fun f _ => by cases f <;> exact ⟨_, rfl⟩

theorem total_list {α : Type} {c : Coding α} (h : c.Total) : (list c).Total := by
  intro f as
  obtain ⟨items, hitems⟩ := Except.exists_mapM_eq_ok_iff.2 fun a (_ : a ∈ as) => h f a
  exact ⟨f.array items, Except.bind_eq_ok_iff.2 ⟨items, hitems, rfl⟩⟩

end Coding

theorem VersionScheme.total_coding : coding.Total := fun f _ => by cases f <;> exact ⟨_, rfl⟩

theorem Role.total_coding : coding.Total := fun f _ => by cases f <;> exact ⟨_, rfl⟩

theorem Roles.total_coding : coding.Total := Coding.total_list Role.total_coding

theorem Svn.total_coding : coding.Total := fun f n => by cases f <;> cases n <;> exact ⟨_, rfl⟩

theorem Digest.total_coding : coding.Total := fun f _ => by cases f <;> exact ⟨_, rfl⟩

theorem Digests.total_coding : coding.Total := fun f ds =>
  Coding.total_list Digest.total_coding f ds.entries

end Rim
