import Rim.Json.Expect
import Rim.Json.Writer
import Rim.Proofs.Json.Number

/-!
# JSON values are read back

* `Json.Readable`: values of bounded depth whose numbers are integers and whose objects hold each
  name once.
* `Json.Members.ofList_of_nodup`: members with different names stay as they are.
* `Json.readValue_chars`: a readable value is read from the front of its text.
* `Json.parse_write`: the octets of a readable value are the value.
-/

namespace Rim.Json

/-- Values that nest at most a number of levels, with integers for numbers and each name once in an
object. -/
inductive Readable : Nat → Json → Prop where
  | null {d : Nat} : Readable d .null
  | bool {d : Nat} (b : Bool) : Readable d (.bool b)
  | number {d : Nat} {n : Number} : n.IsInteger → Readable d (.number n)
  | string {d : Nat} (s : String) : Readable d (.string s)
  | array {d : Nat} {items : List Json} :
    (∀ v ∈ items, Readable d v) → Readable (d + 1) (.array items)
  | object {d : Nat} {members : List (String × Json)} :
    (members.map (·.1)).Nodup → (∀ m ∈ members, Readable d m.2) → Readable (d + 1) (.object members)

/-- More levels do no harm. -/
theorem Readable.mono {d e : Nat} {v : Json} (h : Readable d v) (hle : d ≤ e) : Readable e v := by
  induction h generalizing e with
  | null => exact .null
  | bool b => exact .bool b
  | number hn => exact .number hn
  | string s => exact .string s
  | array _ ih =>
    obtain ⟨e, rfl⟩ : ∃ k, e = k + 1 := ⟨e - 1, by omega⟩
    exact .array fun v hv => ih v hv (by omega)
  | object hnames _ ih =>
    obtain ⟨e, rfl⟩ : ∃ k, e = k + 1 := ⟨e - 1, by omega⟩
    exact .object hnames fun m hm => ih m hm (by omega)

/-! ## Members -/

namespace Members

theorem insert_of_notMem {name : String} {members : Members}
    (h : name ∉ members.map (·.1)) (v : Json) :
    insert name v members = members ++ [(name, v)] := by
  induction members with
  | nil => rfl
  | cons m rest ih =>
    have hne : m.1 ≠ name := fun heq => h (by simp [heq])
    have hrest : name ∉ rest.map (·.1) := fun hr => h (by simp [List.mem_map.1 hr])
    simp [insert, hne, ih hrest]

theorem foldl_insert_of_nodup (pairs members : List (String × Json))
    (h : ((members ++ pairs).map (·.1)).Nodup) :
    pairs.foldl (fun members (name, v) => insert name v members) members = members ++ pairs := by
  induction pairs generalizing members with
  | nil => simp
  | cons p rest ih =>
    obtain ⟨name, v⟩ := p
    have hname : name ∉ members.map (·.1) := by
      intro hmem
      rw [List.map_append, List.map_cons, List.nodup_append] at h
      exact h.2.2 _ hmem _ (by simp) rfl
    rw [List.foldl_cons]
    show rest.foldl _ (insert name v members) = _
    rw [insert_of_notMem hname, ih]
    · simp
    · simpa using h

/-- Members with different names stay as they are. -/
theorem ofList_of_nodup {pairs : List (String × Json)} (h : (pairs.map (·.1)).Nodup) :
    ofList pairs = pairs := by
  have := foldl_insert_of_nodup pairs [] (by simpa using h)
  simpa [ofList] using this

theorem find?_insert_of_ne {name other : String} (h : other ≠ name) (v : Json)
    (members : Members) : find? name (insert other v members) = find? name members := by
  induction members with
  | nil => simp [insert, find?, h]
  | cons m rest ih =>
    obtain ⟨n, w⟩ := m
    unfold insert
    split
    next hn => simp [find?, hn, h]
    next => simp [find?, ih]

/-- Members of other names do not change what is found. -/
theorem find?_ofList_append {name : String} {others : List (String × Json)}
    (h : ∀ e ∈ others, e.1 ≠ name) (pairs : List (String × Json)) :
    find? name (ofList (pairs ++ others)) = find? name (ofList pairs) := by
  unfold ofList
  rw [List.foldl_append]
  generalize pairs.foldl (fun members (name, value) => insert name value members) [] = members
  induction others generalizing members with
  | nil => rfl
  | cons e rest ih =>
    obtain ⟨hne, hrest⟩ := List.forall_mem_cons.1 h
    rw [List.foldl_cons, ih hrest]
    exact find?_insert_of_ne hne e.2 members

/-- What is found is the first member of the name. -/
theorem find?_eq_some_iff_append {name : String} {members : Members} {v : Json} :
    find? name members = some v ↔
      ∃ before after, members = before ++ (name, v) :: after ∧ ∀ e ∈ before, e.1 ≠ name := by
  constructor
  · intro h
    induction members with
    | nil => cases h
    | cons m rest ih =>
      obtain ⟨n, w⟩ := m
      unfold find? at h
      split at h
      next hn =>
        subst hn
        obtain rfl := Option.some.inj h
        exact ⟨[], rest, rfl, by simp⟩
      next hn =>
        obtain ⟨before, after, rfl, hbefore⟩ := ih h
        exact ⟨(n, w) :: before, after, rfl, List.forall_mem_cons.2 ⟨hn, hbefore⟩⟩
  · rintro ⟨before, after, rfl, hbefore⟩
    induction before with
    | nil => simp [find?]
    | cons m rest ih =>
      obtain ⟨hm, hrest⟩ := List.forall_mem_cons.1 hbefore
      simp [find?, hm, ih hrest]

end Members

/-! ## Strings -/

theorem hexValue?_digitChar : ∀ n < 16, hexValue? (Nat.digitChar n) = some n := by decide

/-- A control character is read from its number. -/
theorem unicodeEscape_control {c : Char} (h : c.toNat < 0x20) (rest : List Char) :
    unicodeEscape ('0' :: '0' :: Nat.digitChar (c.toNat / 16) :: Nat.digitChar (c.toNat % 16) ::
      rest) = some (c, rest) := by
  have hzero : hexValue? '0' = some 0 := by decide
  have hhigh := hexValue?_digitChar (c.toNat / 16) (by omega)
  have hlow := hexValue?_digitChar (c.toNat % 16) (by omega)
  have hunit : c.toNat / 16 * 16 + c.toNat % 16 = c.toNat := by omega
  have hplain : c.toNat < 0xd800 ∨ 0xe000 ≤ c.toNat := Or.inl (by omega)
  simp [unicodeEscape, unit?, hzero, hhigh, hlow, hunit, hplain]

/-- A character behind a backslash. -/
theorem stringBody_backslash {c : Char} {s rest : List Char} (h : escaped s = some (c, rest))
    (fuel : Nat) :
    stringBody (fuel + 1) ('\\' :: s) =
      (stringBody fuel rest).map fun (cs, rest) => (c :: cs, rest) := by
  simp only [stringBody, h, Option.bind_eq_bind, Option.bind_some]
  cases stringBody fuel rest <;> rfl

/-- One character of a string is read back. -/
theorem stringBody_escape (c : Char) (fuel : Nat) (rest : List Char) :
    stringBody (fuel + 1) (escape c ++ rest) =
      (stringBody fuel rest).map fun (cs, rest) => (c :: cs, rest) := by
  -- Seven characters have an escape of their own, control characters one by number, others none.
  unfold escape
  split
  · exact stringBody_backslash rfl fuel
  · exact stringBody_backslash rfl fuel
  · exact stringBody_backslash rfl fuel
  · exact stringBody_backslash rfl fuel
  · exact stringBody_backslash rfl fuel
  · exact stringBody_backslash rfl fuel
  · exact stringBody_backslash rfl fuel
  next c hquote hbackslash _ _ _ _ _ =>
    split
    next hcontrol =>
      refine stringBody_backslash ?_ fuel
      exact unicodeEscape_control hcontrol rest
    next hplain =>
      rw [List.singleton_append, stringBody]
      · rw [if_neg hplain]
        cases stringBody fuel rest <;> rfl
      · exact hquote
      · exact hbackslash

/-- The characters of a string are read up to its closing quote. -/
theorem stringBody_flatMap_escape (cs rest : List Char) {fuel : Nat} (h : cs.length < fuel) :
    stringBody fuel (cs.flatMap escape ++ '"' :: rest) = some (cs, rest) := by
  induction cs generalizing fuel with
  | nil =>
    obtain ⟨fuel, rfl⟩ : ∃ k, fuel = k + 1 := ⟨fuel - 1, by omega⟩
    rfl
  | cons c others ih =>
    obtain ⟨fuel, rfl⟩ : ∃ k, fuel = k + 1 := ⟨fuel - 1, by omega⟩
    rw [List.flatMap_cons, List.append_assoc, stringBody_escape,
      ih (by simpa using h)]
    rfl

theorem escape_ne_nil (c : Char) : escape c ≠ [] := by
  unfold escape
  split
  all_goals try simp
  split <;> simp

theorem length_le_flatMap_escape (cs : List Char) : cs.length ≤ (cs.flatMap escape).length := by
  induction cs with
  | nil => simp
  | cons c rest ih =>
    have hpos := List.length_pos_iff.2 (escape_ne_nil c)
    simp only [List.flatMap_cons, List.length_append, List.length_cons]
    omega

/-- A string is read after its opening quote. -/
theorem string?_append (s : String) (rest : List Char) :
    string? (s.toList.flatMap escape ++ '"' :: rest) = some (s, rest) := by
  have hle := length_le_flatMap_escape s.toList
  have hfuel : s.toList.length < (s.toList.flatMap escape ++ '"' :: rest).length := by
    rw [List.length_append, List.length_cons]
    omega
  rw [string?, stringBody_flatMap_escape s.toList rest hfuel]
  simp

/-! ## Lists -/

/-- Elements after the first, each after a comma, and a closing character. -/
def elementsAfter {α : Type} (write : α → List Char) (close : Char) : List α → List Char
  | [] => [close]
  | x :: rest => ',' :: write x ++ elementsAfter write close rest

theorem restItems_eq (items : List Json) : restItems items = elementsAfter chars ']' items := by
  induction items with
  | nil => rfl
  | cons v rest ih => rw [restItems, elementsAfter, ih]

/-- The text of a member. -/
def memberChars (m : String × Json) : List Char := quoted m.1 ++ ':' :: chars m.2

theorem restMembers_eq (members : List (String × Json)) :
    restMembers members = elementsAfter memberChars '}' members := by
  induction members with
  | nil => rfl
  | cons m rest ih =>
    rw [restMembers, elementsAfter, ih]
    simp [memberChars]

theorem stops_elementsAfter {α : Type} (write : α → List Char) {close : Char}
    (hclose : close = ']' ∨ close = '}') (xs : List α) (rest : List Char) :
    Stops (elementsAfter write close xs ++ rest) := by
  cases xs with
  | nil => exact stops_cons (Or.inr hclose) rest
  | cons x others => exact stops_cons (Or.inl rfl) _

theorem length_le_elementsAfter {α : Type} (write : α → List Char) (close : Char) (xs : List α) :
    xs.length < (elementsAfter write close xs).length := by
  induction xs with
  | nil => simp [elementsAfter]
  | cons x rest ih =>
    simp only [elementsAfter, List.length_append, List.length_cons]
    omega

/-- Elements with commas between them are read to the closing character. -/
theorem separated_elementsAfter {α : Type} {read : List Char → Option (α × List Char)}
    {write : α → List Char} {close : Char} (hclose : close = ']' ∨ close = '}') (x : α)
    (xs : List α)
    (h : ∀ y ∈ x :: xs, ∀ rest, Stops rest → read (write y ++ rest) = some (y, rest))
    {fuel : Nat} (hfuel : xs.length < fuel) (rest : List Char) :
    separated read close fuel (write x ++ (elementsAfter write close xs ++ rest)) =
      some (x :: xs, rest) := by
  obtain ⟨fuel, rfl⟩ : ∃ k, fuel = k + 1 := ⟨fuel - 1, by omega⟩
  -- What follows an element is a comma or the closing character, where every value ends.
  have hfirst := h x (by simp) _ (stops_elementsAfter write hclose xs rest)
  induction xs generalizing x fuel with
  | nil =>
    rw [separated, hfirst]
    rcases hclose with rfl | rfl <;> rfl
  | cons y others ih =>
    have hrest := ih y (fun z hz => h z (List.mem_cons_of_mem x hz))
    obtain ⟨fuel, rfl⟩ : ∃ k, fuel = k + 1 := ⟨fuel - 1, by
      rw [List.length_cons] at hfuel
      omega⟩
    have hnext := hrest fuel (by simpa using hfuel)
      (h y (by simp) _ (stops_elementsAfter write hclose others rest))
    have hcomma : skipBlanks (elementsAfter write close (y :: others) ++ rest) =
        ',' :: (write y ++ (elementsAfter write close others ++ rest)) := by
      simp [elementsAfter, skipBlanks, isBlank]
    rw [separated, hfirst]
    simp [hcomma, hnext]

/-- What can begin a value or a member: no blank and no closing bracket. -/
def Begins (s : List Char) : Prop :=
  ∃ c rest, s = c :: rest ∧ isBlank c = false ∧ c ≠ ']' ∧ c ≠ '}'

theorem Begins.append {s : List Char} (h : Begins s) (rest : List Char) : Begins (s ++ rest) := by
  obtain ⟨c, others, rfl, hblank, hbracket, hbrace⟩ := h
  exact ⟨c, others ++ rest, rfl, hblank, hbracket, hbrace⟩

theorem Begins.skipBlanks {s : List Char} (h : Begins s) : skipBlanks s = s := by
  obtain ⟨c, rest, rfl, hblank, -, -⟩ := h
  simp [Json.skipBlanks, hblank]

/-- A list of one or more elements is read to its closing character. -/
theorem listUntil_elementsAfter {α : Type} {read : List Char → Option (α × List Char)}
    {write : α → List Char} {close : Char} (hclose : close = ']' ∨ close = '}') (x : α)
    (xs : List α)
    (h : ∀ y ∈ x :: xs, ∀ rest, Stops rest → read (write y ++ rest) = some (y, rest))
    (hbegins : Begins (write x)) (rest : List Char) :
    listUntil read close (write x ++ (elementsAfter write close xs ++ rest)) =
      some (x :: xs, rest) := by
  have hskip := (hbegins.append (elementsAfter write close xs ++ rest)).skipBlanks
  have hlength := length_le_elementsAfter write close xs
  have hfuel : xs.length < (write x ++ (elementsAfter write close xs ++ rest)).length := by
    simp only [List.length_append]
    omega
  have hread := separated_elementsAfter hclose x xs h hfuel rest
  -- The first character is not the closing one, so the list is not taken for an empty one.
  obtain ⟨c, others, hfirst, -, hbracket, hbrace⟩ := hbegins
  rw [hfirst] at hskip hread ⊢
  have hne : c ≠ close := by
    rcases hclose with rfl | rfl
    · exact hbracket
    · exact hbrace
  rw [listUntil, hskip]
  simp only [List.cons_append, if_neg hne] at hread ⊢
  exact hread

/-! ## Values -/

theorem begins_quoted (s : String) : Begins (quoted s) :=
  ⟨'"', _, rfl, by decide, by decide, by decide⟩

/-- Integers begin with a digit or a minus sign. -/
theorem render_eq_cons {n : Number} (h : n.IsInteger) :
    ∃ c rest, n.render.toList = c :: rest ∧ (c.isDigit = true ∨ c = '-') := by
  cases n with
  | natural k =>
    cases hdigits : Nat.toDigits 10 k.toNat with
    | nil => exact absurd hdigits Nat.toDigits_ne_nil
    | cons c rest =>
      have hchars : (Number.render (.natural k)).toList = Nat.toDigits 10 k.toNat :=
        Nat.toList_repr
      exact ⟨c, rest, by rw [hchars, hdigits],
        Or.inl (Text.isDigit_of_mem_toDigits (n := k.toNat) (by simp [hdigits]))⟩
  | negative k => exact ⟨'-', _, Number.toList_toString_neg h, Or.inr rfl⟩
  | double x => exact absurd h id

/-- A digit or a minus sign begins a number and nothing else. -/
theorem readWith_number {c : Char} (h : c.isDigit = true ∨ c = '-')
    (nested : Option (List Char → Option (Json × List Char))) (s : List Char) :
    readWith nested (c :: s) =
      (Number.read (c :: s)).map fun (n, rest) => (.number n, rest) := by
  -- The reader decides by the first character, which begins none of the other values.
  have hne : ∀ d : Char, d.isDigit = false → d ≠ '-' → c ≠ d := by
    rintro d hd hminus rfl
    rcases h with h | h
    · exact absurd (h.symm.trans hd) (by decide)
    · exact hminus h
  have hblank : isBlank c = false := by
    simp [isBlank, hne ' ' (by decide) (by decide), hne '\n' (by decide) (by decide),
      hne '\r' (by decide) (by decide), hne '\t' (by decide) (by decide)]
  have hskip : skipBlanks (c :: s) = c :: s := by simp [skipBlanks, hblank]
  unfold readWith
  rw [hskip]
  split
  next heq => exact absurd (List.cons.inj heq).1 (hne 'n' (by decide) (by decide))
  next heq => exact absurd (List.cons.inj heq).1 (hne 't' (by decide) (by decide))
  next heq => exact absurd (List.cons.inj heq).1 (hne 'f' (by decide) (by decide))
  next heq => exact absurd (List.cons.inj heq).1 (hne '"' (by decide) (by decide))
  next heq => exact absurd (List.cons.inj heq).1 (hne '[' (by decide) (by decide))
  next heq => exact absurd (List.cons.inj heq).1 (hne '{' (by decide) (by decide))
  next => cases Number.read (c :: s) <;> rfl

theorem begins_chars {d : Nat} {v : Json} (h : Readable d v) : Begins (chars v) := by
  cases h with
  | null => exact ⟨'n', _, rfl, by decide, by decide, by decide⟩
  | bool b =>
    cases b
    · exact ⟨'f', _, rfl, by decide, by decide, by decide⟩
    · exact ⟨'t', _, rfl, by decide, by decide, by decide⟩
  | string s => exact begins_quoted s
  | @number _ n hn =>
    obtain ⟨c, rest, hchars, hfirst⟩ := render_eq_cons hn
    refine ⟨c, rest, by simpa [chars] using hchars, ?_⟩
    rcases hfirst with hdigit | rfl
    · have hne : ∀ d : Char, d.isDigit = false → c ≠ d := by
        rintro d hd rfl
        exact absurd (hdigit.symm.trans hd) (by decide)
      simp [isBlank, hne ' ' (by decide), hne '\n' (by decide), hne '\r' (by decide),
        hne '\t' (by decide), hne ']' (by decide), hne '}' (by decide)]
    · decide
  | @array _ items _ =>
    cases items with
    | nil => exact ⟨'[', _, rfl, by decide, by decide, by decide⟩
    | cons v rest => exact ⟨'[', _, rfl, by decide, by decide, by decide⟩
  | @object _ members _ _ =>
    cases members with
    | nil => exact ⟨'{', _, rfl, by decide, by decide, by decide⟩
    | cons m rest => exact ⟨'{', _, rfl, by decide, by decide, by decide⟩

theorem readValue_eq (d : Nat) : ∃ nested, readValue d = readWith nested := by
  cases d with
  | zero => exact ⟨none, rfl⟩
  | succ d => exact ⟨some (readValue d), rfl⟩

/-- A member is read when its value is. -/
theorem member_memberChars {read : List Char → Option (Json × List Char)} {m : String × Json}
    {rest : List Char} (h : read (chars m.2 ++ rest) = some (m.2, rest)) :
    member read (memberChars m ++ rest) = some (m, rest) := by
  have hname := string?_append m.1 (':' :: (chars m.2 ++ rest))
  have hskip : skipBlanks (memberChars m ++ rest) =
      '"' :: (m.1.toList.flatMap escape ++ '"' :: ':' :: (chars m.2 ++ rest)) := by
    simp [memberChars, quoted, skipBlanks, isBlank]
  have hcolon : skipBlanks (':' :: (chars m.2 ++ rest)) = ':' :: (chars m.2 ++ rest) := by
    simp [skipBlanks, isBlank]
  rw [member, hskip]
  simp [hname, hcolon, h]

/-- A readable value is read from the front of its text. -/
theorem readValue_chars {d : Nat} {v : Json} (h : Readable d v) {rest : List Char}
    (hrest : Stops rest) : readValue d (chars v ++ rest) = some (v, rest) := by
  -- Only numbers need `hrest`; every other value has an end of its own.
  induction h generalizing rest with
  | @null d =>
    obtain ⟨nested, hd⟩ := readValue_eq d
    rw [hd]
    rfl
  | @bool d b =>
    obtain ⟨nested, hd⟩ := readValue_eq d
    rw [hd]
    cases b <;> rfl
  | @number d n hn =>
    obtain ⟨nested, hd⟩ := readValue_eq d
    obtain ⟨c, others, hchars, hfirst⟩ := render_eq_cons hn
    have hread := Number.read_render hn hrest
    rw [hchars, List.cons_append] at hread
    rw [hd, chars, hchars, List.cons_append, readWith_number hfirst, hread]
    rfl
  | @string d s =>
    obtain ⟨nested, hd⟩ := readValue_eq d
    have hskip : skipBlanks (chars (.string s) ++ rest) =
        '"' :: (s.toList.flatMap escape ++ '"' :: rest) := by
      simp [chars, quoted, skipBlanks, isBlank]
    rw [hd, readWith, hskip]
    simp [string?_append]
  | @array d items hitems ih =>
    cases items with
    | nil => rfl
    | cons v others =>
      have hskip : skipBlanks (chars (.array (v :: others)) ++ rest) =
          '[' :: (chars v ++ (elementsAfter chars ']' others ++ rest)) := by
        simp [chars, restItems_eq, skipBlanks, isBlank]
      have hlist := listUntil_elementsAfter (Or.inl rfl) v others
        (fun w hw rest hrest => ih w hw hrest) (begins_chars (hitems v (by simp))) rest
      rw [readValue, readWith, hskip]
      simp [hlist]
  | @object d members hnames hmembers ih =>
    cases members with
    | nil => rfl
    | cons m others =>
      have hskip : skipBlanks (chars (.object (m :: others)) ++ rest) =
          '{' :: (memberChars m ++ (elementsAfter memberChars '}' others ++ rest)) := by
        simp [chars, restMembers_eq, memberChars, skipBlanks, isBlank]
      have hbegins : Begins (memberChars m) := (begins_quoted m.1).append _
      have hlist := listUntil_elementsAfter (Or.inr rfl) m others
        (fun w hw rest hrest => member_memberChars (ih w hw hrest)) hbegins rest
      rw [readValue, readWith, hskip]
      simp [hlist, Members.ofList_of_nodup hnames]

/-- The octets of a readable value are the value. -/
theorem parse_write {v : Json} (h : Readable maxDepth v) : parse (write v) = .ok v := by
  have hread := readValue_chars h stops_nil
  rw [List.append_nil] at hread
  have htext : readText? (text v) = some v := by
    simp only [readText?, text, String.toList_ofList, hread]
    rfl
  have hoctets : read? (write v) = some v := by
    rw [read?, write, Bytes.toString?_ofString]
    exact htext
  rw [parse, hoctets]

end Rim.Json
