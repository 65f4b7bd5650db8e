import RssDisk.Hstf.Clients

/-!
# A crash while the log is written

A crash can leave any first part of the file. `init` removes a file that does not end with a whole
record, and then numbers from one again; otherwise it goes on behind the last whole record. The
clients keep their own numbers.
-/

namespace RssDisk.Hstf

open Lib Bitbase List UInt64

namespace Service

/-- The log after a crash that leaves some first bytes of the file. -/
def recovered (oplogSizeBytes : Int64) (s : Service) (bytes : Nat) : Hstf :=
  init oplogSizeBytes (s.hstf.file.map (fun file => file.take bytes))

end Service

/-- The numbers that `add` gives to some entries. -/
def given (h : Hstf) : List Entry → List UInt64
  | [] => []
  | e :: entries => (h.add e).p :: given (h.add e) entries

/-- The log after some entries were added. -/
def addAll (h : Hstf) (entries : List Entry) : Hstf := entries.foldl add h

theorem given_above {h : Hstf} {entries : List Entry}
    (small : h.p.toNat + entries.length < 2 ^ 64) {n : UInt64} (present : n ∈ given h entries) :
    h.p.toNat < n.toNat := by
  induction entries generalizing h with
  | nil => cases present
  | cons e entries ih =>
    rw [length_cons] at small
    have next : (h.add e).p.toNat = h.p.toNat + 1 := by
      show (h.p + 1).toNat = _
      rw [UInt64.toNat_add, UInt64.toNat_one]
      omega
    rcases mem_cons.mp present with rfl | later
    · omega
    · grind

namespace Service

variable {oplogSizeBytes : Int64} {s : Service}

/-- The bytes that survive end with a whole record, and every client has asked for that record or
an earlier one. A client that was told of no record does not matter. -/
def Survives (s : Service) (bytes : Nat) : Prop :=
  ∀ client, (s.clients client).remote = 0 ∨
    (0 < min bytes s.hstf.content.length ∧ min bytes s.hstf.content.length % ssgmt = 0 ∧
      (s.clients client).remote.toNat ≤ s.cleared + min bytes s.hstf.content.length / ssgmt)

/-- After a crash every new entry has a number behind those that the clients keep, and the next
question of a client brings all of them. -/
def Recovers (oplogSizeBytes : Int64) (s : Service) (bytes : Nat) : Prop :=
  ∀ entries : List Entry, entries.length < 2 ^ 63 → ∀ client,
    (∀ n ∈ given (recovered oplogSizeBytes s bytes) entries, (s.clients client).remote < n) ∧
    ((∀ e ∈ entries, e.Fits) → ssgmt * (s.added.length + entries.length) < 2 ^ 63 →
      s.kept.length + entries.length ≤ recordLimit →
      numbered ((recovered oplogSizeBytes s bytes).p.toNat + 1) entries <:+
        (poll (addAll (recovered oplogSizeBytes s bytes) entries)
          (s.clients client).remote).1.map decode)

section

variable (good : Good (sizeOf oplogSizeBytes) s)

include good

theorem Good.recovered_cases (bytes : Nat) :
    (¬ (0 < min bytes s.hstf.content.length ∧ min bytes s.hstf.content.length % ssgmt = 0) ∧
      ∃ file, (file = none ∨ file = some []) ∧
        recovered oplogSizeBytes s bytes = { size := sizeOf oplogSizeBytes, file }) ∨
    ∃ count, 0 < count ∧ count ≤ s.added.length - s.cleared ∧
      min bytes s.hstf.content.length = count * ssgmt ∧
      recovered oplogSizeBytes s bytes = {
        size := sizeOf oplogSizeBytes
        content := (numbered (1 + s.cleared) ((s.added.drop s.cleared).take count)).flatMap encode
        p := UInt64.ofNat (s.cleared + count)
        file := some ((numbered (1 + s.cleared)
          ((s.added.drop s.cleared).take count)).flatMap encode) } := by
  have length : s.hstf.content.length = ssgmt * (s.added.length - s.cleared) := by
    rw [good.content, flatMap_length_fixed encode_length, kept_length]
  rcases good.file with file | ⟨none, empty⟩
  · have survived : (s.hstf.content.take bytes).length = min bytes s.hstf.content.length :=
      length_take
    have start : recovered oplogSizeBytes s bytes =
        init oplogSizeBytes (some (s.hstf.content.take bytes)) := by
      rw [recovered, file, Option.map_some]
    by_cases whole : min bytes s.hstf.content.length % ssgmt = 0
    · by_cases some : 0 < min bytes s.hstf.content.length
      · right
        obtain ⟨count, multiple⟩ := Nat.dvd_of_mod_eq_zero whole
        rw [Nat.mul_comm] at multiple
        have low : 0 < count := by
          grind
        have high : count ≤ s.added.length - s.cleared := by
          have inside := Nat.min_le_right bytes s.hstf.content.length
          rw [multiple, length] at inside
          simp only [ssgmt] at inside
          omega
        have content : s.hstf.content.take bytes =
            (numbered (1 + s.cleared) ((s.added.drop s.cleared).take count)).flatMap encode := by
          rw [take_eq_take_min, multiple, good.content, take_flatMap_fixed encode_length, kept,
            take_numbered]
        have filled : (s.added.drop s.cleared).take count ≠ [] := by
          rw [← length_pos_iff, length_take, length_drop]
          omega
        refine ⟨count, low, high, multiple, ?_⟩
        rw [start, content, init_numbered _ _ filled, length_take, length_drop,
          show 1 + s.cleared + (min count (s.added.length - s.cleared) - 1) = s.cleared + count by
            omega]
      · have nothing : s.hstf.content.take bytes = [] := by
          grind
        refine .inl ⟨fun both => some both.1, Option.some [], .inr rfl, ?_⟩
        rw [start, nothing]
        rfl
    · refine .inl ⟨fun both => whole both.2, Option.none, .inl rfl, ?_⟩
      simp only [start, init, survived,
        if_pos (show min bytes s.hstf.content.length % ssgmt ≠ 0 from
        whole)]
  · refine .inl ⟨fun both => ?_, Option.none, .inl rfl, ?_⟩
    · grind
    · rw [recovered, none]
      rfl

theorem Good.recovered_number (bytes : Nat) :
    s.Survives bytes ↔
      ∀ client, (s.clients client).remote.toNat ≤ (recovered oplogSizeBytes s bytes).p.toNat := by
  have counted := good.counted
  simp only [ssgmt] at counted
  refine forall_congr' (fun client => ?_)
  rcases good.recovered_cases bytes with ⟨cut, file, _, fresh⟩ | ⟨count, low, high, whole, goesOn⟩
  · have zero : (s.clients client).remote = 0 ↔ (s.clients client).remote.toNat ≤ 0 := by
      rw [Nat.le_zero, ← UInt64.toNat_inj]
      rfl
    rw [fresh, show (0 : UInt64).toNat = 0 from rfl, ← zero]
    exact ⟨fun either => either.resolve_right (fun some => cut ⟨some.1, some.2.1⟩), .inl⟩
  · have number : (UInt64.ofNat (s.cleared + count)).toNat = s.cleared + count :=
      toNat_ofNat_of_lt' (by show _ < 2 ^ 64; omega)
    rw [goesOn, number, whole, Nat.mul_div_cancel _ (by decide)]
    constructor
    · rintro (none | some)
      · rw [none]
        exact Nat.zero_le _
      · exact some.2.2
    · intro below
      refine .inr ⟨?_, by simp, below⟩
      simp only [ssgmt]
      omega

theorem Good.recovered_le (bytes : Nat) :
    (recovered oplogSizeBytes s bytes).p.toNat ≤ s.added.length := by
  rcases good.recovered_cases bytes with ⟨_, file, _, fresh⟩ | ⟨count, low, high, _, goesOn⟩
  · rw [fresh]
    exact Nat.zero_le _
  · rw [goesOn]
    exact (Nat.mod_le _ _).trans (by omega)

theorem Good.recovers {bytes : Nat} (survives : s.Survives bytes) :
    ∃ t : Service, Good (sizeOf oplogSizeBytes) t ∧ t.hstf = recovered oplogSizeBytes s bytes ∧
      t.clients = s.clients ∧ t.added.length ≤ s.added.length ∧ t.kept.length ≤ s.kept.length := by
  have behind := (good.recovered_number bytes).mp survives
  have counted := good.counted
  simp only [ssgmt] at counted
  rcases good.recovered_cases bytes with ⟨_, file, absent, fresh⟩ | ⟨count, low, high, _, goesOn⟩
  · rw [fresh] at behind
    refine ⟨{ hstf := recovered oplogSizeBytes s bytes, clients := s.clients }, ?_, rfl, rfl,
      Nat.zero_le _, Nat.zero_le _⟩
    rw [fresh]
    refine ⟨rfl, by simp, by simp, .inr ⟨rfl, rfl⟩, rfl, rfl, ?_, behind, good.ordered⟩
    rcases absent with rfl | rfl
    · exact .inr ⟨rfl, rfl⟩
    · exact .inl rfl
  · have number : (UInt64.ofNat (s.cleared + count)).toNat = s.cleared + count :=
      toNat_ofNat_of_lt' (by show _ < 2 ^ 64; omega)
    have length : (s.added.take (s.cleared + count)).length = s.cleared + count := by
      rw [length_take]
      omega
    rw [goesOn, number] at behind
    refine ⟨{ s with
      hstf := recovered oplogSizeBytes s bytes
      added := s.added.take (s.cleared + count) }, ?_, rfl, rfl, ?_, ?_⟩
    · rw [goesOn]
      refine ⟨rfl, fun e present => good.fits e (mem_of_mem_take present), ?_, .inl ?_, ?_, ?_,
        .inl rfl, ?_, good.ordered⟩
      · simp only [length, ssgmt]
        omega
      · simp only [length]
        omega
      · rw [kept, drop_take, Nat.add_sub_cancel_left]
      · rw [number, length]
      · rw [length]
        exact behind
    · simp only [length]
      omega
    · rw [kept_length, kept_length, length]
      dsimp only
      omega

end

theorem Good.addAll {size : Nat} (good : Good size s) {entries : List Entry}
    (fits : ∀ e ∈ entries, e.Fits) (counted : ssgmt * (s.added.length + entries.length) < 2 ^ 63) :
    Good size { s with hstf := addAll s.hstf entries, added := s.added ++ entries } := by
  induction entries generalizing s with
  | nil =>
    rw [append_nil]
    exact good
  | cons e entries ih =>
    rw [length_cons] at counted
    have one := good.add (fits e mem_cons_self) (by simp only [ssgmt] at counted ⊢; omega)
    have all := ih one (fun other present => fits other (mem_cons_of_mem _ present)) (by
      simp only [length_append, length_singleton, ssgmt] at counted ⊢
      omega)
    rw [append_assoc] at all
    exact all

theorem Good.poll_new {size : Nat} (good : Good size s) (client : Nat) {entries : List Entry}
    (fits : ∀ e ∈ entries, e.Fits) (counted : ssgmt * (s.added.length + entries.length) < 2 ^ 63)
    (few : s.kept.length + entries.length ≤ recordLimit) :
    numbered (s.hstf.p.toNat + 1) entries <:+
      (poll (Hstf.addAll s.hstf entries) (s.clients client).remote).1.map decode := by
  have all := good.addAll fits counted
  have cursor := good.behind client
  have above : ∀ item ∈ numbered (s.added.length + 1) entries,
      decide ((s.clients client).remote.toNat < item.1) = true := by
    intro item present
    have low := (mem_numbered present).1
    simp only [decide_eq_true_eq]
    omega
  have news : Service.news
      { s with hstf := Hstf.addAll s.hstf entries, added := s.added ++ entries }
      (s.clients client).remote.toNat = s.news (s.clients client).remote.toNat ++
        numbered (s.added.length + 1) entries := by
    rw [Service.news, Service.kept]
    dsimp only
    rw [kept_append good.cleared_le, filter_append, filter_eq_self.mpr above]
    rfl
  have short : (s.news (s.clients client).remote.toNat).length ≤ s.kept.length :=
    length_filter_le _ _
  have asked := all.poll_decoded (all.behind client)
  dsimp only at asked
  rw [asked, news, take_of_length_le (by rw [length_append, numbered_length]; omega),
    good.number]
  exact suffix_append _ _

/-- After a crash, new entries have numbers behind all those that clients keep, and reach every
client, exactly when the file ends with a whole record at or behind the last one that any client
was told of. -/
theorem recovers_iff {oplogSizeBytes : Int64} (positive : 1 ≤ oplogSizeBytes) {s : Service}
    (reached : Reaches (step oplogSizeBytes) Countable (start oplogSizeBytes) s) (bytes : Nat) :
    Recovers oplogSizeBytes s bytes ↔ s.Survives bytes := by
  have good := Good.reached positive reached
  have counted := good.counted
  have small := good.recovered_le bytes
  simp only [ssgmt] at counted
  constructor
  · intro recovers
    rw [good.recovered_number]
    intro client
    have above : (s.clients client).remote < (recovered oplogSizeBytes s bytes).p + 1 :=
      (recovers [⟨[], 0, 0⟩] (by decide) client).1 _ mem_cons_self
    rw [UInt64.lt_iff_toNat_lt, UInt64.toNat_add, UInt64.toNat_one] at above
    omega
  · intro survives entries short client
    have behind := (good.recovered_number bytes).mp survives client
    refine ⟨fun n present => ?_, fun fits fewer less => ?_⟩
    · have above := given_above (by omega) present
      rw [lt_iff_toNat_lt]
      omega
    · obtain ⟨t, fine, log, clients, added, kept⟩ := good.recovers survives
      rw [← log, ← clients]
      exact fine.poll_new client fits (by simp only [ssgmt] at fewer ⊢; omega) (by omega)

/-- After a crash behind the record that a client was told of, its next question brings the new
entry. -/
theorem recovers_iff_sample :
    ∃ s, Reaches (step 1) Countable (start 1) s ∧ (s.clients 0).remote = 1 ∧
      Recovers 1 s 88 := by
  have ran : ∃ s, Reaches (step 1) Countable (start 1) s ∧ (s.clients 0).remote = 1 ∧
      s.hstf.content.length = 88 ∧ s.added.length = 1 :=
    Reaches.of_runActions_any [.add (sampleEntry 97 5), .poll 0] (by decide +kernel)
  obtain ⟨s, reached, remote, length, added⟩ := ran
  refine ⟨s, reached, remote, (recovers_iff (by decide) reached 88).mpr (fun client => ?_)⟩
  have behind := (Good.reached (by decide) reached).behind client
  rw [length]
  exact .inr ⟨by decide, by decide, by simp only [ssgmt]; omega⟩

/-- A client was told of a record that is cut by the crash: the next entry has the same number. -/
theorem recovers_cut_record :
    ∃ s, Reaches (step 1) Countable (start 1) s ∧ ¬ Recovers 1 s 87 := by
  have ran : ∃ s, Reaches (step 1) Countable (start 1) s ∧ (s.clients 0).remote = 1 ∧
      (recovered 1 s 87).p = 0 :=
    Reaches.of_runActions_any [.add (sampleEntry 97 5), .poll 0] (by decide +kernel)
  obtain ⟨s, reached, remote, again⟩ := ran
  refine ⟨s, reached, fun recovers => ?_⟩
  have above : (s.clients 0).remote < (recovered 1 s 87).p + 1 :=
    (recovers [sampleEntry 98 7] (by decide) 0).1 _ mem_cons_self
  rw [remote, again] at above
  exact absurd above (by decide)

end Service

end RssDisk.Hstf
