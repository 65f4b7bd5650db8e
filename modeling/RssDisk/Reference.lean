import RssDisk.Env

/-!
# A reference environment

An executable environment that obeys the laws of the libraries: a reader of the JSON texts that the
program prints, a compressor that puts the first byte of a zlib stream before its input, and hash
maps that are walked from their last insertion on. Statements about every lawful environment are
evaluated on it.
-/

namespace RssDisk.Reference

open Lib BasefuncStd List BasefuncStd Json Bool

/-- The value of a hexadecimal digit. -/
def hexValue (c : UInt8) : UInt8 := if c < 58 then c - 48 else c - 55

/-- The byte that an escaped character stands for. -/
def unescape (c : UInt8) : UInt8 :=
  if c = 98 then 8
  else if c = 102 then 12
  else if c = 110 then 10
  else if c = 114 then 13
  else if c = 116 then 9
  else c

/-- The rest of a quoted string, and what follows it. -/
def readString : Bytes → Option (Bytes × Bytes)
  | [] => none
  | 34 :: rest => some ([], rest)
  | 92 :: 117 :: _ :: _ :: high :: low :: rest =>
    (readString rest).map (fun read => ((hexValue high * 16 + hexValue low) :: read.1, read.2))
  | 92 :: c :: rest => (readString rest).map (fun read => (unescape c :: read.1, read.2))
  | c :: rest => (readString rest).map (fun read => (c :: read.1, read.2))

/-- A number, and what follows it. -/
def readNumber (data : Bytes) : Option (Json × Bytes) :=
  let negative : Bool := data.head? = some 45
  let unsigned := if negative then data.tail else data
  let digits := unsigned.takeWhile isDigit
  if digits = [] then none
  else some (.int (if negative then -(digitsValue digits : Int) else digitsValue digits),
    unsigned.dropWhile isDigit)

mutual

/-- A value, and what follows it. -/
def readValue : Nat → Bytes → Option (Json × Bytes)
  | 0, _ => none
  | _ + 1, [] => none
  | fuel + 1, c :: rest =>
    if c = 110 then some (.null, rest.drop 3)
    else if c = 116 then some (.bool true, rest.drop 3)
    else if c = 102 then some (.bool false, rest.drop 4)
    else if c = 34 then (readString rest).map (fun read => (.string read.1, read.2))
    else if c = 91 then
      if rest.head? = some 93 then some (.array [], rest.tail)
      else (readItems fuel rest).map (fun read => (.array read.1, read.2))
    else if c = 123 then
      if rest.head? = some 125 then some (.object [], rest.tail)
      else (readMembers fuel rest).map (fun read => (.object read.1, read.2))
    else readNumber (c :: rest)

/-- The elements of an array up to its bracket. -/
def readItems : Nat → Bytes → Option (List Json × Bytes)
  | 0, _ => none
  | fuel + 1, data =>
    match readValue fuel data with
    | some (item, 44 :: rest) => (readItems fuel rest).map (fun read => (item :: read.1, read.2))
    | some (item, 93 :: rest) => some ([item], rest)
    | _ => none

/-- The members of an object up to its brace. -/
def readMembers : Nat → Bytes → Option (List (Bytes × Json) × Bytes)
  | 0, _ => none
  | fuel + 1, data =>
    match readString data.tail with
    | some (name, rest) =>
      match readValue fuel rest.tail with
      | some (value, 44 :: rest) =>
        (readMembers fuel rest).map (fun read => ((name, value) :: read.1, read.2))
      | some (value, 125 :: rest) => some ([(name, value)], rest)
      | _ => none
    | none => none

end

mutual

/-- A canonical value without floating-point numbers. -/
def isCanonical : Json → Bool
  | .int value => -2 ^ 63 ≤ value && value < 2 ^ 64
  | .real _ => false
  | .array items => areCanonical items
  | .object members =>
    memberCanonical members && decide ((members.map Prod.fst).Pairwise (· < ·))
  | _ => true

def areCanonical : List Json → Bool
  | [] => true
  | item :: items => isCanonical item && areCanonical items

def memberCanonical : List (Bytes × Json) → Bool
  | [] => true
  | (_, value) :: members => isCanonical value && memberCanonical members

end

/-- Read a text that is printed from a canonical value. -/
def parse (data : Bytes) : Option Json :=
  match readValue (2 * data.length) data with
  | some (value, _) =>
    if isCanonical value ∧ value.toString (fun _ => []) = data then some value else none
  | none => none

/-- The number of days from the first of January 1970 to a date. -/
def daysFromEpoch (date : Date) : Int :=
  let year := if date.month ≤ 2 then date.year - 1 else date.year
  let era := year / 400
  let yearOfEra := year % 400
  let dayOfYear := (153 * ((date.month + 9) % 12) + 2) / 5 + date.day - 1
  era * 146097 + yearOfEra * 365 + yearOfEra / 4 - yearOfEra / 100 + dayOfYear - 719468

/-- The reference environment, with local time at Greenwich. -/
def env : Env where
  compress := fun str => 120 :: str
  inflate := fun str => if str.head? = some 120 then str.tail else []
  parse := parse
  realText := fun _ => []
  hash := fun str => str.foldl (fun h c => (h ^^^ c.toUInt64) * 1099511628211) 14695981039346656037
  mktime := fun date time => Int64.ofInt
    (daysFromEpoch date * 86400 + time.hour * 3600 + time.minute * 60 + time.second)
  decrypt := fun content _ _ => content
  order := fun map => map.entries.map (fun entry => (entry.1, entry.2))
  readsBack := fun value => isCanonical value = true

instance (value : Json) : Decidable (env.readsBack value) :=
  inferInstanceAs (Decidable (isCanonical value = true))

theorem hexValue_hexDigit {c : UInt8} (control : c < 32) :
    hexValue (hexDigit (c / 16)) * 16 + hexValue (hexDigit (c % 16)) = c := by
  have each : ∀ n < 32, hexValue (hexDigit (UInt8.ofNat n / 16)) * 16 +
      hexValue (hexDigit (UInt8.ofNat n % 16)) = UInt8.ofNat n := by decide
  have small : c.toNat < 32 := UInt8.lt_iff_toNat_lt.mp control
  have back := each c.toNat small
  rwa [UInt8.ofNat_toNat] at back

theorem readString_escape (c : UInt8) (rest : Bytes) :
    readString (escape c ++ rest) =
      (readString rest).map (fun read => (c :: read.1, read.2)) := by
  unfold escape
  split
  · rename_i same
    subst same
    rfl
  split
  · rename_i same
    subst same
    rfl
  iterate 5
    split
    · rename_i same
      subst same
      rfl
  rename_i _ backslash _ _ _ _ _
  split
  · rename_i control
    simp only [cons_append, nil_append, readString, hexValue_hexDigit control]
  · rw [cons_append, nil_append]
    simp [readString, backslash]

theorem readString_quote (value rest : Bytes) :
    readString (value.flatMap escape ++ 34 :: rest) = some (value, rest) := by
  induction value with
  | nil => rfl
  | cons c value ih =>
    rw [flatMap_cons, append_assoc, readString_escape, ih]
    rfl

theorem readNumber_toString (n : Int) (rest : Bytes) (ends : ∀ c ∈ rest.head?, isDigit c = false) :
    readNumber (BasefuncStd.toString n ++ rest) = some (.int n, rest) := by
  have digits := takeWhile_natText n.natAbs rest ends
  have left : (natText n.natAbs ++ rest).dropWhile isDigit = rest := by
    have split := takeWhile_append_dropWhile (p := isDigit) (l := natText n.natAbs ++ rest)
    rw [digits] at split
    exact append_cancel_left split
  have value := digitsValue_natText n.natAbs
  have some := natText_ne_nil n.natAbs
  unfold BasefuncStd.toString
  split
  · simp only [readNumber, cons_append, head?_cons, decide_true, ↓reduceIte,
      tail_cons, digits, some, left, value]
    congr 3
    omega
  · have first : (natText n.natAbs ++ rest).head? ≠ Option.some 45 := by
      cases text : natText n.natAbs with
      | nil => exact (some text).elim
      | cons c more =>
        have digit := natText_isDigit n.natAbs c (by simp [text])
        simpa using (isDigit_spec digit).2.1
    simp only [readNumber, first, decide_false, false_eq_true, ↓reduceIte, digits, some, left,
      value]
    congr 3
    omega

theorem toString_head (n : Int) :
    ∃ c more, BasefuncStd.toString n = c :: more ∧ c.toNat ≤ 57 ∧ c ≠ 34 := by
  unfold BasefuncStd.toString
  split
  · exact ⟨45, _, rfl, by decide, by decide⟩
  · cases text : natText n.natAbs with
    | nil => exact (natText_ne_nil n.natAbs text).elim
    | cons c more =>
      have digit := natText_isDigit n.natAbs c (by simp [text])
      simp only [isDigit, and_eq_true, decide_eq_true_eq, UInt8.le_iff_toNat_le] at digit
      refine ⟨c, more, rfl, digit.2, fun same => ?_⟩
      rw [same] at digit
      exact absurd digit.1 (by decide)

theorem text_head {value : Json} (canonical : isCanonical value = true) :
    ∃ c more, value.toString (fun _ => []) = c :: more ∧ c ≠ 93 := by
  cases value with
  | null => exact ⟨_, _, rfl, by decide⟩
  | bool b => cases b <;> exact ⟨_, _, rfl, by decide⟩
  | int n =>
    obtain ⟨c, more, text, small, _⟩ := toString_head n
    refine ⟨c, more, by rw [Json.toString, text], fun same => ?_⟩
    rw [same] at small
    exact absurd small (by decide)
  | real d => simp [isCanonical] at canonical
  | string str => exact ⟨_, _, rfl, by decide⟩
  | array items => exact ⟨_, _, rfl, by decide⟩
  | object members => exact ⟨_, _, rfl, by decide⟩

mutual

theorem readValue_text (value : Json) (rest : Bytes) (fuel : Nat)
    (canonical : isCanonical value = true)
    (enough : 2 * (value.toString (fun _ => []) ++ rest).length ≤ fuel)
    (ends : ∀ c ∈ rest.head?, isDigit c = false) :
    readValue fuel (value.toString (fun _ => []) ++ rest) = some (value, rest) := by
  obtain ⟨fuel, rfl⟩ : ∃ k, fuel = k + 1 := by
    obtain ⟨c, more, text, _⟩ := text_head canonical
    rw [text] at enough
    simp only [cons_append, length_cons] at enough
    exact ⟨fuel - 1, by omega⟩
  cases value with
  | null => rfl
  | bool b => cases b <;> rfl
  | int n =>
    obtain ⟨c, more, text, small, noQuote⟩ := toString_head n
    have number := readNumber_toString n rest ends
    have apart : ∀ b : UInt8, 57 < b.toNat → c ≠ b := fun b large same => by
      rw [same] at small
      omega
    rw [Json.toString]
    rw [text] at number ⊢
    rw [cons_append] at number ⊢
    rw [readValue, if_neg (apart 110 (by decide)), if_neg (apart 116 (by decide)),
      if_neg (apart 102 (by decide)), if_neg noQuote, if_neg (apart 91 (by decide)),
      if_neg (apart 123 (by decide)), number]
  | real d => simp [isCanonical] at canonical
  | string str =>
    have read := readString_quote str rest
    simp only [Json.toString, Json.quote, cons_append, append_assoc, nil_append]
    rw [readValue, if_neg (by decide), if_neg (by decide), if_neg (by decide), if_pos rfl, read]
    rfl
  | array items =>
    simp only [Json.toString, cons_append, append_assoc, nil_append,
      length_cons] at enough ⊢
    rw [readValue, if_neg (by decide), if_neg (by decide), if_neg (by decide),
      if_neg (by decide), if_pos rfl]
    cases items with
    | nil => rfl
    | cons item items =>
      rw [isCanonical] at canonical
      obtain ⟨c, more, text, apart⟩ := text_head (and_eq_true_iff.mp canonical).1
      have open' :
          (Json.itemsText (fun _ => []) (item :: items) ++ 93 :: rest).head? ≠ some 93 := by
        rw [Json.itemsText, text]
        simpa using apart
      rw [if_neg open', readItems_text item items rest fuel canonical (by omega)]
      rfl
  | object members =>
    simp only [Json.toString, cons_append, append_assoc, nil_append,
      length_cons] at enough ⊢
    rw [readValue, if_neg (by decide), if_neg (by decide), if_neg (by decide),
      if_neg (by decide), if_neg (by decide), if_pos rfl]
    cases members with
    | nil => rfl
    | cons member members =>
      rw [isCanonical, and_eq_true] at canonical
      obtain ⟨name, value⟩ := member
      have open' : (Json.membersText (fun _ => []) ((name, value) :: members) ++
          125 :: rest).head? ≠ some 125 := by
        rw [Json.membersText, Json.quote]
        simp
      rw [if_neg open', readMembers_text name value members rest fuel canonical.1 (by omega)]
      rfl
termination_by fuel

theorem readItems_text (item : Json) (items : List Json) (rest : Bytes) (fuel : Nat)
    (canonical : areCanonical (item :: items) = true)
    (enough : 2 * (itemsText (fun _ => []) (item :: items) ++ 93 :: rest).length + 1 ≤ fuel) :
    readItems fuel (itemsText (fun _ => []) (item :: items) ++ 93 :: rest) =
      some (item :: items, rest) := by
  rw [areCanonical, and_eq_true] at canonical
  obtain ⟨fuel, rfl⟩ : ∃ k, fuel = k + 1 := ⟨fuel - 1, by omega⟩
  cases items with
  | nil =>
    simp only [itemsText, isEmpty_nil, ↓reduceIte, append_nil] at enough ⊢
    rw [readItems, readValue_text item (93 :: rest) fuel canonical.1 (by omega) (by simp; decide)]
    rfl
  | cons next items =>
    have text : itemsText (fun _ => []) (item :: next :: items) ++ 93 :: rest =
        item.toString (fun _ => []) ++
          44 :: (itemsText (fun _ => []) (next :: items) ++ 93 :: rest) := by
      rw [itemsText]
      simp
    rw [text] at enough ⊢
    rw [readItems, readValue_text item _ fuel canonical.1 (by omega) (by simp; decide)]
    simp only
    rw [readItems_text next items rest fuel canonical.2 (by
      simp only [length_append, length_cons] at enough ⊢
      omega)]
    rfl
termination_by fuel

theorem readMembers_text (name : Bytes) (value : Json) (members : List (Bytes × Json))
    (rest : Bytes) (fuel : Nat) (canonical : memberCanonical ((name, value) :: members) = true)
    (enough : 2 * (membersText (fun _ => []) ((name, value) :: members) ++
      125 :: rest).length + 1 ≤ fuel) :
    readMembers fuel (membersText (fun _ => []) ((name, value) :: members) ++ 125 :: rest) =
      some ((name, value) :: members, rest) := by
  rw [memberCanonical, and_eq_true] at canonical
  obtain ⟨fuel, rfl⟩ : ∃ k, fuel = k + 1 := ⟨fuel - 1, by omega⟩
  cases members with
  | nil =>
    have text : membersText (fun _ => []) [(name, value)] ++ 125 :: rest =
        34 :: (name.flatMap escape ++ 34 :: 58 :: (value.toString (fun _ => []) ++
          125 :: rest)) := by
      simp [membersText, quote]
    rw [text] at enough ⊢
    rw [readMembers, tail_cons, readString_quote]
    simp only [tail_cons]
    rw [readValue_text value (125 :: rest) fuel canonical.1 (by
      simp only [length_append, length_cons] at enough ⊢
      omega) (by simp; decide)]
    rfl
  | cons next members =>
    obtain ⟨other, following⟩ := next
    have text : membersText (fun _ => []) ((name, value) :: (other, following) :: members) ++
        125 :: rest =
        34 :: (name.flatMap escape ++ 34 :: 58 :: (value.toString (fun _ => []) ++
          44 :: (membersText (fun _ => []) ((other, following) :: members) ++
            125 :: rest))) := by
      rw [membersText]
      simp [quote]
    rw [text] at enough ⊢
    rw [readMembers, tail_cons, readString_quote]
    simp only [tail_cons]
    simp only [length_append, length_cons] at enough
    rw [readValue_text value _ fuel canonical.1 (by
      simp only [length_append, length_cons]
      omega) (by simp; decide)]
    simp only
    rw [readMembers_text other following members rest fuel canonical.2 (by
      simp only [length_append, length_cons]
      omega)]
    rfl
termination_by fuel

end

mutual

theorem canonical_of_isCanonical (value : Json) (canonical : isCanonical value = true) :
    value.Canonical := by
  cases value with
  | int n => simpa [isCanonical, Canonical] using canonical
  | array items => exact canonical_of_areCanonical items canonical
  | object members =>
    rw [isCanonical, and_eq_true, decide_eq_true_eq] at canonical
    exact ⟨canonical_of_memberCanonical members canonical.1, canonical.2⟩
  | _ => trivial

theorem canonical_of_areCanonical (items : List Json) (canonical : areCanonical items = true) :
    CanonicalItems items := by
  cases items with
  | nil => trivial
  | cons item items =>
    rw [areCanonical, and_eq_true] at canonical
    exact ⟨canonical_of_isCanonical item canonical.1, canonical_of_areCanonical items canonical.2⟩

theorem canonical_of_memberCanonical (members : List (Bytes × Json))
    (canonical : memberCanonical members = true) : CanonicalMembers members := by
  cases members with
  | nil => trivial
  | cons member members =>
    rw [memberCanonical, and_eq_true] at canonical
    exact ⟨canonical_of_isCanonical member.2 canonical.1,
      canonical_of_memberCanonical members canonical.2⟩

end

theorem areCanonical_iff (items : List Json) :
    areCanonical items = true ↔ ∀ item ∈ items, isCanonical item = true := by
  induction items with
  | nil => simp [areCanonical]
  | cons item items ih => simp [areCanonical, ih]

theorem parse_text {value : Json} (canonical : isCanonical value = true) :
    env.parseJsonData (env.text value) = some value := by
  have read := readValue_text value [] _ canonical (Nat.le_refl _) (by simp)
  rw [append_nil] at read
  have same : env.text value = value.toString (fun _ => []) := rfl
  have some : env.text value ≠ [] := by
    obtain ⟨c, more, text, _⟩ := text_head canonical
    grind
  have parsed : env.parse (env.text value) = parse (value.toString (fun _ => [])) := rfl
  rw [Env.parseJsonData, if_neg some, parsed, parse, read]
  simp [canonical]

theorem env_shape : env.ReadsShaped := by
  intro data value read
  have parsed : parse data = some value := read
  unfold parse at parsed
  split at parsed
  · split at parsed
    · grind [canonical_of_isCanonical]
    · cases parsed
  · cases parsed

theorem env_json : env.JsonInverse := by
  intro records each
  have canonical : isCanonical (.array records) = true := (areCanonical_iff records).mpr each
  have read := parse_text canonical
  have some : env.text (.array records) ≠ [] := by simp [Env.text, Json.toString]
  rwa [Env.parseJsonData, if_neg some] at read

theorem env_refusesCommas : env.RefusesCommas := by
  intro n
  have refused : ∀ fuel rest, readValue fuel (91 :: 44 :: rest) = none := by
    intro fuel rest
    match fuel with
    | 0 => rfl
    | 1 => rfl
    | 2 => rfl
    | fuel + 3 => rfl
  change Reference.parse (91 :: replicate (n + 1) 44 ++ [93]) = none
  rw [Reference.parse, replicate_succ, cons_append, cons_append, refused]

theorem env_lawful : env.Lawful :=
  ⟨fun _ => rfl, env_shape, env_json, fun _ => List.Perm.refl _⟩

end RssDisk.Reference
