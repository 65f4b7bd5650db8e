import RssDisk.Network.Outbox

/-!
# The account of a descriptor

What the kernel has taken of the messages for the client of a descriptor and what is still to be
sent make up what was pushed for it; a removal may wait that drops the rest. The account is kept by
everything that happens to the messages of one descriptor.
-/

namespace RssDisk.Network.Outbox

open Lib Listen Function List

theorem takeShort_rest (one : Bytes) (msgs : List MWrite) :
    (takeShort one msgs).1 ++ (takeShort one msgs).2.flatMap MWrite.rest =
      one ++ msgs.flatMap MWrite.rest := by
  induction msgs generalizing one with
  | nil => rfl
  | cons w msgs ih =>
    rw [takeShort]
    split
    · rfl
    · rename_i fresh
      split
      · have whole : w.rest = w.msg := by
          rw [MWrite.rest, not_not.mp fresh, drop_zero]
        rw [ih, flatMap_cons, whole, append_assoc]
      · rfl

theorem splitShortMessages_rest (msgs : List MWrite) :
    (splitShortMessages msgs).flatMap MWrite.rest = msgs.flatMap MWrite.rest := by
  rw [splitShortMessages]
  split
  · have whole := takeShort_rest [] msgs
    rw [nil_append] at whole
    rw [flatMap_cons, ← whole]
    rfl
  · rfl

theorem MWrite.send_rest {w after : MWrite} {result : SendResult} {bytes : Bytes} {status : Todo}
    (called : w.send result = some (after, bytes, status)) :
    w.rest = bytes ++ after.rest ∧ (status = .ok → after.rest = []) := by
  unfold MWrite.send at called
  split at called
  · rename_i empty
    cases called
    rw [MWrite.rest, empty, drop_nil]
    exact ⟨rfl, fun _ => rfl⟩
  · cases result with
    | wrote n =>
      simp only [Option.ite_none_right_eq_some, Option.some.injEq, Prod.mk.injEq] at called
      obtain ⟨-, rfl, rfl, rfl⟩ := called
      have later : MWrite.rest { w with tSizeSend := w.tSizeSend + n } = w.rest.drop n := by
        rw [MWrite.rest, MWrite.rest, drop_drop]
      refine ⟨by rw [later, take_append_drop], fun done => ?_⟩
      split at done
      · rename_i whole
        rw [MWrite.rest, whole, drop_length]
      · cases done
    | again =>
      grind
    | stopped =>
      grind

end RssDisk.Network.Outbox
