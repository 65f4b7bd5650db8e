import RssDisk.Client.Command
import RssDisk.Lib.Newest

/-!
# The newest of several answers

For `read_file_tms_newest` and `read_cdb_tms_newest` the command waits for all servers and returns
one of their answers. It goes over the answers with contents of more than two bytes, keeps the first
one with the greatest time and counts those with this time. The servers among themselves compare the
check sums of versions with equal times; the command does not.
-/

namespace RssDisk.Client

open Lib Bitbase List Int64

/-- The state of the loop over the answers. -/
structure Selection where
  countJ : Int := 0
  tmsJ : Int64 := 0
  /-- `n`, which is absent as long as it is -1. -/
  n : Option Nat := none
deriving DecidableEq, Repr

/-- One round of the loop. -/
def Selection.next (s : Selection) (ri : ReadInfo) (i : Nat) : Selection :=
  if 2 < ri.content.length then
    if s.tmsJ < ri.fileTms then { countJ := 1, tmsJ := ri.fileTms, n := some i }
    else if ri.fileTms = s.tmsJ then { s with countJ := s.countJ + 1 }
    else s
  else s

def selection (indexex : List ReadInfo) : Selection :=
  indexex.zipIdx.foldl (fun s it => s.next it.1 it.2) {}

/-- The answer that the command returns; none when there are too few. -/
def tmsNewest (countParts : Int) (indexex : List ReadInfo) : Option ReadInfo :=
  let s := selection indexex
  match s.n with
  | none => none
  | some n => if s.countJ < countParts then none else indexex[n]?

/-- The answers that the loop can keep. -/
def eligible (ri : ReadInfo) : Bool := 2 < ri.content.length ∧ 0 < ri.fileTms

def infoTms (ri : ReadInfo) : Int := ri.fileTms.toInt

/-- The state behind some answers: the first one of the newest is kept, and the newest are
counted. -/
def Selects (items : List ReadInfo) (s : Selection) : Prop :=
  match newest infoTms (items.filter eligible) with
  | none => s.n = none ∧ s.tmsJ = 0
  | some (best, _) => (∃ i, s.n = some i ∧ items[i]? = some best) ∧ s.tmsJ = best.fileTms ∧
      s.countJ = (items.filter eligible).countP (fun ri => ri.fileTms = best.fileTms)

variable {items : List ReadInfo} {ri : ReadInfo} {s : Selection}

theorem Selects.skip (selects : Selects items s) (not : eligible ri = false) {count : Int}
    (same : (newest infoTms (items.filter eligible)).isSome → count = s.countJ) :
    Selects (items ++ [ri]) { s with countJ := count } := by
  have filtered : (items ++ [ri]).filter eligible = items.filter eligible := by
    rw [filter_append, filter_cons_of_neg (by rw [not]; decide), filter_nil,
      append_nil]
  unfold Selects at selects ⊢
  rw [filtered]
  cases kept : newest infoTms (items.filter eligible) with
  | none =>
    grind
  | some found =>
    obtain ⟨best, since⟩ := found
    rw [kept] at selects same
    obtain ⟨⟨i, isN, at_⟩, tms, counted⟩ := selects
    have inside : i < items.length := (List.getElem?_eq_some_iff.mp at_).1
    refine ⟨⟨i, isN, ?_⟩, tms, ?_⟩
    · rw [getElem?_append_left inside]
      exact at_
    · grind

theorem Selects.take (selects : Selects items s) (is : eligible ri = true) :
    Selects (items ++ [ri]) (s.next ri items.length) := by
  have able : 2 < ri.content.length ∧ 0 < ri.fileTms := of_decide_eq_true is
  have filtered : (items ++ [ri]).filter eligible = items.filter eligible ++ [ri] := by
    rw [filter_append, filter_cons_of_pos is, filter_nil]
  have last : (items ++ [ri])[items.length]? = some ri := by simp
  unfold Selects at selects ⊢
  rw [filtered, newest_append, Selection.next, if_pos able.1]
  cases kept : newest infoTms (items.filter eligible) with
  | none =>
    have none_ : items.filter eligible = [] := newest_eq_none.mp kept
    rw [kept] at selects
    rw [selects.2, if_pos able.2, none_]
    exact ⟨⟨items.length, rfl, last⟩, rfl, by simp⟩
  | some found =>
    obtain ⟨best, since⟩ := found
    have spec := newest_eq_some kept
    rw [kept] at selects
    obtain ⟨⟨i, isN, at_⟩, tms, counted⟩ := selects
    have inside : i < items.length := (List.getElem?_eq_some_iff.mp at_).1
    have still : (items ++ [ri])[i]? = some best := by
      rw [getElem?_append_left inside]
      exact at_
    have newer : best.fileTms < ri.fileTms ↔ infoTms best < infoTms ri := lt_iff_toInt_lt
    rw [tms, pick]
    by_cases lt : infoTms best < infoTms ri
    · have none_ :
          (items.filter eligible).countP (fun other => other.fileTms = ri.fileTms) = 0 := by
        rw [countP_eq_zero]
        intro other member same
        have equal : infoTms other = infoTms ri := congrArg Int64.toInt (of_decide_eq_true same)
        have le := spec.le_best member
        omega
      rw [if_pos (newer.mpr lt), if_pos lt]
      exact ⟨⟨items.length, rfl, last⟩, rfl, by simp [none_]⟩
    · rw [if_neg (fun le => lt (newer.mp le)), if_neg lt]
      by_cases same : ri.fileTms = best.fileTms
      · rw [if_pos same]
        exact ⟨⟨i, isN, still⟩, rfl, by simp [counted, same]⟩
      · rw [if_neg same]
        exact ⟨⟨i, isN, still⟩, tms, by simp [counted, same]⟩

theorem Selects.next (selects : Selects items s) (ri : ReadInfo) :
    Selects (items ++ [ri]) (s.next ri items.length) := by
  cases is : eligible ri with
  | true => exact selects.take is
  | false =>
    have unable : ¬ (2 < ri.content.length ∧ 0 < ri.fileTms) := of_decide_eq_false is
    rw [Selection.next]
    by_cases long : 2 < ri.content.length
    · rw [if_pos long]
      have early : ¬ 0 < ri.fileTms := fun late => unable ⟨long, late⟩
      -- an answer without a positive time is counted at most as long as none is kept
      have start : (newest infoTms (items.filter eligible)).isSome → 0 < s.tmsJ := by
        intro kept
        obtain ⟨⟨best, since⟩, found⟩ := Option.isSome_iff_exists.mp kept
        have member := mem_filter.mp (newest_eq_some found).mem
        have able : 2 < best.content.length ∧ 0 < best.fileTms := of_decide_eq_true member.2
        unfold Selects at selects
        grind
      have low : ¬ s.tmsJ < ri.fileTms := by
        cases kept : newest infoTms (items.filter eligible) with
        | none =>
          unfold Selects at selects
          grind
        | some found =>
          have high := start (by rw [kept]; rfl)
          grind
      rw [if_neg low]
      by_cases same : ri.fileTms = s.tmsJ
      · rw [if_pos same]
        exact selects.skip is (fun kept => absurd (same ▸ start kept) early)
      · rw [if_neg same]
        exact selects.skip is (fun _ => rfl)
    · rw [if_neg long]
      exact selects.skip is (fun _ => rfl)

theorem selects_selection (indexex : List ReadInfo) : Selects indexex (selection indexex) := by
  induction indexex using List.reverseRecOn with
  | nil => exact ⟨rfl, rfl⟩
  | append_singleton items ri ih =>
    have round : selection (items ++ [ri]) = (selection items).next ri items.length := by
      rw [selection, zipIdx_append, foldl_append]
      simp [selection]
    rw [round]
    exact ih.next ri

/-- The answers that can be returned: those with contents whose positive times are the greatest. -/
def winners (replies : List ReadInfo) : List ReadInfo :=
  (replies.filter eligible).filter (fun ri =>
    (replies.filter eligible).all (fun other => infoTms other ≤ infoTms ri))

def version (ri : ReadInfo) : Int64 × Int64 := (ri.fileTms, ri.fileCrc32)

/-- The order in which the servers compare versions: by the times, and by the check sums of versions
with equal times. -/
def VersionLe (a b : ReadInfo) : Prop :=
  a.fileTms < b.fileTms ∨ (a.fileTms = b.fileTms ∧ a.fileCrc32 ≤ b.fileCrc32)

theorem version_eq_of_le {a b : ReadInfo} (le : VersionLe a b) (ge : VersionLe b a) :
    version a = version b := by
  rw [VersionLe, lt_iff_toInt_lt, le_iff_toInt_le] at le ge
  rcases le with early | ⟨tms, below⟩
  · rcases ge with late | ⟨same, -⟩
    · omega
    · rw [same] at early
      omega
  · rcases ge with late | ⟨-, above⟩
    · rw [tms] at late
      omega
    · have crc : a.fileCrc32 = b.fileCrc32 := toInt_inj.mp (Int.le_antisymm below above)
      rw [version, version, tms, crc]

theorem winners_perm {order replies : List ReadInfo} (perm : order.Perm replies) :
    (winners order).Perm (winners replies) := by
  have able : (order.filter eligible).Perm (replies.filter eligible) := perm.filter _
  have same : (fun ri => (order.filter eligible).all (fun other => infoTms other ≤ infoTms ri)) =
      fun ri => (replies.filter eligible).all (fun other => infoTms other ≤ infoTms ri) :=
    funext (fun ri => able.all_eq)
  rw [winners, winners, same]
  exact able.filter _

theorem winners_eq {best : ReadInfo} {since : List ReadInfo}
    (spec : Newest infoTms (items.filter eligible) best since) :
    winners items = (items.filter eligible).filter (fun ri => ri.fileTms = best.fileTms) := by
  apply filter_congr
  intro ri member
  have le := spec.le_best member
  rw [Bool.eq_iff_iff, all_eq_true, decide_eq_true_iff]
  constructor
  · intro most
    have ge : infoTms best ≤ infoTms ri := of_decide_eq_true (most best spec.mem)
    exact toInt_inj.mp (Int.le_antisymm le ge)
  · intro same other among
    have equal : infoTms ri = infoTms best := congrArg Int64.toInt same
    rw [equal]
    exact decide_eq_true (spec.le_best among)

theorem tmsNewest_eq (countParts : Int) (items : List ReadInfo) :
    tmsNewest countParts items =
      match newest infoTms (items.filter eligible) with
      | none => none
      | some (best, _) => if (winners items).length < countParts then none else some best := by
  have selects := selects_selection items
  unfold Selects at selects
  rw [tmsNewest]
  cases kept : newest infoTms (items.filter eligible) with
  | none =>
    grind
  | some found =>
    obtain ⟨best, since⟩ := found
    have counted := winners_eq (newest_eq_some kept)
    rw [kept] at selects
    obtain ⟨⟨i, isN, at_⟩, -, count⟩ := selects
    rw [countP_eq_length_filter, ← counted] at count
    simp only [isN, count, at_]

variable {countParts : Int}

theorem mem_winners_of_tmsNewest (returned : tmsNewest countParts items = some ri) :
    ri ∈ winners items ∧ countParts ≤ (winners items).length := by
  rw [tmsNewest_eq] at returned
  cases kept : newest infoTms (items.filter eligible) with
  | none =>
    rw [kept] at returned
    cases returned
  | some found =>
    obtain ⟨best, since⟩ := found
    have spec := newest_eq_some kept
    simp only [kept] at returned
    split at returned
    · cases returned
    · rename_i enough
      cases returned
      refine ⟨?_, by omega⟩
      rw [winners_eq spec]
      exact mem_filter.mpr ⟨spec.mem, decide_eq_true rfl⟩

theorem exists_tmsNewest (some_ : winners items ≠ []) (enough : countParts ≤ (winners items).length)
    : ∃ ri, tmsNewest countParts items = some ri := by
  have able : items.filter eligible ≠ [] := by
    intro none_
    rw [winners, none_] at some_
    exact some_ rfl
  obtain ⟨best, since, kept, -⟩ := @newest_spec _ _ _ infoTms (items.filter eligible) able
  refine ⟨best, ?_⟩
  rw [tmsNewest_eq, kept]
  simp only
  rw [if_neg (by omega)]

theorem tmsNewest_of_winner {replies : List ReadInfo} {w : ReadInfo} (winner : w ∈ winners replies)
    (enough : countParts ≤ (winners replies).length) :
    ∃ order, order.Perm replies ∧ tmsNewest countParts order = some w := by
  obtain ⟨able, most⟩ := mem_filter.mp winner
  obtain ⟨member, is⟩ := mem_filter.mp able
  obtain ⟨front, back, rfl⟩ := append_of_mem member
  have perm : (w :: (front ++ back)).Perm (front ++ w :: back) := perm_middle.symm
  refine ⟨w :: (front ++ back), perm, ?_⟩
  have first : (w :: (front ++ back)).filter eligible = w :: (front ++ back).filter eligible :=
    filter_cons_of_pos is
  obtain ⟨best, since, kept, spec⟩ := @newest_spec _ _ _ infoTms
    ((w :: (front ++ back)).filter eligible) (by rw [first]; exact cons_ne_nil _ _)
  rw [first] at spec
  have le : ∀ other ∈ (front ++ back).filter eligible, infoTms other ≤ infoTms w := by
    intro other among
    have inside : other ∈ (front ++ w :: back).filter eligible := by
      apply (perm.filter eligible).mem_iff.mp
      grind
    exact of_decide_eq_true (all_eq_true.mp most other inside)
  obtain ⟨rfl, -⟩ := spec.of_first le
  rw [tmsNewest_eq, kept, (winners_perm perm).length_eq]
  simp only
  rw [if_neg (by omega)]

/-- The version that is returned does not depend on the order of the answers, is the greatest one
and is held by enough answers, exactly when every answer with the greatest time has the greatest
version, or there are too few of them. -/
theorem tmsNewest_right_iff (countParts : Int) (replies : List ReadInfo) :
    (∀ order, order.Perm replies →
      (∀ order', order'.Perm replies →
        (tmsNewest countParts order').map version = (tmsNewest countParts order).map version) ∧
      ∀ ri, tmsNewest countParts order = some ri →
        (∀ other ∈ replies, VersionLe other ri) ∧
          countParts ≤ replies.countP (fun other => version other = version ri)) ↔
      (countParts ≤ (winners replies).length →
        ∀ w ∈ winners replies, ∀ other ∈ replies, VersionLe other w) := by
  constructor
  · intro right enough w winner
    obtain ⟨order, perm, returned⟩ := tmsNewest_of_winner winner enough
    exact ((right order perm).2 w returned).1
  · intro greatest order perm
    have inside {w : ReadInfo} (winner : w ∈ winners replies) : w ∈ replies :=
      mem_of_mem_filter (mem_of_mem_filter winner)
    constructor
    · intro order' perm'
      have among := (winners_perm perm).trans (winners_perm perm').symm
      cases returned : tmsNewest countParts order with
      | none =>
        cases returned' : tmsNewest countParts order' with
        | none => rfl
        | some ri =>
          obtain ⟨winner, enough⟩ := mem_winners_of_tmsNewest returned'
          rw [← among.length_eq] at enough
          obtain ⟨other, found⟩ := exists_tmsNewest
            (ne_nil_of_mem (among.mem_iff.mpr winner)) enough
          grind
      | some ri =>
        obtain ⟨winner, enough⟩ := mem_winners_of_tmsNewest returned
        rw [among.length_eq] at enough
        obtain ⟨other, found⟩ := exists_tmsNewest
          (ne_nil_of_mem (among.mem_iff.mp winner)) enough
        rw [(winners_perm perm').length_eq] at enough
        have isWinner := (winners_perm perm).mem_iff.mp winner
        have isOther := (winners_perm perm').mem_iff.mp (mem_winners_of_tmsNewest found).1
        rw [found, Option.map_some, Option.map_some]
        exact congrArg some (version_eq_of_le (greatest enough ri isWinner other (inside isOther))
          (greatest enough other isOther ri (inside isWinner)))
    · intro ri returned
      obtain ⟨winner, enough⟩ := mem_winners_of_tmsNewest returned
      rw [(winners_perm perm).length_eq] at enough
      have isWinner := (winners_perm perm).mem_iff.mp winner
      refine ⟨greatest enough ri isWinner, ?_⟩
      have all : (winners replies).countP (fun other => version other = version ri) =
          (winners replies).length := by
        rw [countP_eq_length]
        intro w member
        exact decide_eq_true (version_eq_of_le (greatest enough ri isWinner w (inside member))
          (greatest enough w member ri (inside isWinner)))
      have sublist : (winners replies).Sublist replies :=
        filter_sublist.trans filter_sublist
      grind

/-- An answer with a time, a check sum and a content. -/
def infoOf (tms crc32 : Int64) (content : Bytes) : ReadInfo :=
  { fileTms := tms, fileCrc32 := crc32, content }

/-- Of two versions with the same time the one that comes first is returned, also the smaller one,
and two answers are counted for it; a newer version with a content of two bytes is passed over. -/
theorem tmsNewest_ignores_sums :
    (tmsNewest 2 [infoOf 7 1 [1, 2, 3], infoOf 7 2 [4, 5, 6]]).map version = some (7, 1) ∧
      (tmsNewest 2 [infoOf 7 2 [4, 5, 6], infoOf 7 1 [1, 2, 3]]).map version = some (7, 2) ∧
      (tmsNewest 1 [infoOf 7 1 [1, 2, 3], infoOf 8 1 [4, 5]]).map version = some (7, 1) := by
  decide

end RssDisk.Client
