import Ylem.Lib.Bytes

/-!
# Writing at an offset

The contents of a file as a list of bytes. `pwrite` writes at an offset; a file that is too short is filled up with
zeroes. Writes that follow each other are one write (`pwrite_append`), and a write into a file that reaches its offset
replaces what is there and keeps the rest (`pwrite_eq`).

Several writes are looked at a byte at a time: a byte that none of them covers stays
(`byteAt_pwriteAll_of_not_covered`), and one on which all those that cover it agree is theirs, whatever their order
(`byteAt_pwriteAll_of_agree`).
-/

namespace Ylem

/-- The contents after `data` has been written at `offset`. -/
def pwrite (content : Bytes) (offset : ℕ) (data : Bytes) : Bytes :=
  (content ++ List.replicate (offset - content.length) 0).take offset ++ data ++
    content.drop (offset + data.length)

variable {content data data' : Bytes} {offset : ℕ}

theorem pwrite_eq (h : offset ≤ content.length) :
    pwrite content offset data = content.take offset ++ data ++ content.drop (offset + data.length) := by
  have hfill : offset - content.length = 0 := by omega
  rw [pwrite, hfill, List.replicate_zero, List.append_nil]

theorem length_filled (content : Bytes) (offset : ℕ) :
    ((content ++ List.replicate (offset - content.length) 0).take offset).length = offset := by
  rw [List.length_take, List.length_append, List.length_replicate]
  omega

theorem le_length_pwrite : offset + data.length ≤ (pwrite content offset data).length := by
  rw [pwrite, List.length_append, List.length_append, length_filled]
  omega

/-- Two writes that follow each other are one write. -/
theorem pwrite_append :
    pwrite (pwrite content offset data) (offset + data.length) data' = pwrite content offset (data ++ data') := by
  have hlen := length_filled content offset
  rw [pwrite_eq le_length_pwrite]
  unfold pwrite
  generalize (content ++ List.replicate (offset - content.length) 0).take offset = front at hlen ⊢
  have hfront : (front ++ data).length = offset + data.length := by rw [List.length_append, hlen]
  have htake : (front ++ data ++ content.drop (offset + data.length)).take (offset + data.length) =
      front ++ data := by
    rw [← hfront, List.take_left]
  have hdrop : (front ++ data ++ content.drop (offset + data.length)).drop
      (offset + data.length + data'.length) = content.drop (offset + (data ++ data').length) := by
    rw [← List.drop_drop, ← hfront, List.drop_left, List.drop_drop, hfront, List.length_append, Nat.add_assoc]
  rw [htake, hdrop, List.append_assoc front]

theorem pwrite_nil (h : offset ≤ content.length) : pwrite content offset [] = content := by
  rw [pwrite_eq h, List.append_nil, List.length_nil, Nat.add_zero, List.take_append_drop]

/-! ### Several writes -/

/-- The byte at an offset, `0` behind the end. -/
def byteAt (content : Bytes) (i : ℕ) : UInt8 := content.getD i 0

theorem length_pwrite : (pwrite content offset data).length = max content.length (offset + data.length) := by
  rw [pwrite, List.length_append, List.length_append, length_filled, List.length_drop]
  omega

theorem byteAt_pwrite (content : Bytes) (offset : ℕ) (data : Bytes) (i : ℕ) :
    byteAt (pwrite content offset data) i =
      if offset ≤ i ∧ i < offset + data.length then byteAt data (i - offset) else byteAt content i := by
  have hlen := length_filled content offset
  unfold pwrite byteAt
  by_cases hlow : i < offset
  · rw [if_neg (by omega), List.append_assoc, List.getD_append _ _ _ _ (by omega), List.getD_eq_getElem?_getD,
      List.getElem?_take_of_lt hlow]
    rcases Nat.lt_or_ge i content.length with hin | hout
    · rw [List.getElem?_append_left hin, List.getD_eq_getElem?_getD]
    · rw [List.getElem?_append_right hout, List.getD_eq_default _ _ hout, List.getElem?_replicate]
      split_ifs
      · rfl
      · rfl
  · rw [List.append_assoc, List.getD_append_right _ _ _ _ (by omega), hlen]
    by_cases hin : i < offset + data.length
    · rw [if_pos ⟨by omega, hin⟩, List.getD_append _ _ _ _ (by omega)]
    · rw [if_neg (by omega), List.getD_append_right _ _ _ _ (by omega), List.getD_eq_getElem?_getD, List.getElem?_drop,
        List.getD_eq_getElem?_getD]
      congr 2
      omega

/-- Contents are equal if they have the same length and the same bytes. -/
theorem eq_of_byteAt (hlen : content.length = data.length)
    (hbyte : ∀ i, i < data.length → byteAt content i = byteAt data i) : content = data := by
  refine List.ext_getElem hlen fun i hi hi' => ?_
  have h := hbyte i hi'
  rwa [byteAt, byteAt, List.getD_eq_getElem _ _ hi, List.getD_eq_getElem _ _ hi'] at h

structure Write where
  offset : ℕ
  data : Bytes

def Write.Covers (w : Write) (i : ℕ) : Prop := w.offset ≤ i ∧ i < w.offset + w.data.length

/-- The contents after the writes. -/
def pwriteAll (content : Bytes) (ws : List Write) : Bytes :=
  ws.foldl (fun content w => pwrite content w.offset w.data) content

section All

variable {w : Write} {ws : List Write} {i : ℕ}

theorem Write.Covers.byteAt (h : w.Covers i) : byteAt (pwrite content w.offset w.data) i = byteAt w.data (i - w.offset) :=
  (byteAt_pwrite content w.offset w.data i).trans (if_pos h)

theorem Write.byteAt_of_not_covers (h : ¬ w.Covers i) : byteAt (pwrite content w.offset w.data) i = byteAt content i :=
  (byteAt_pwrite content w.offset w.data i).trans (if_neg h)

theorem byteAt_pwriteAll_of_not_covered (h : ∀ w ∈ ws, ¬ w.Covers i) :
    byteAt (pwriteAll content ws) i = byteAt content i := by
  induction ws generalizing content with
  | nil => rfl
  | cons w ws ih =>
    have hrest := @ih (pwrite content w.offset w.data) fun w' hw' => h w' (List.mem_cons_of_mem _ hw')
    rw [Write.byteAt_of_not_covers (h w List.mem_cons_self)] at hrest
    exact hrest

/-- The byte is right once a write that covers it has been carried out, and no write makes it wrong. -/
theorem byteAt_pwriteAll_of_agree {v : UInt8} (hagree : ∀ w ∈ ws, w.Covers i → byteAt w.data (i - w.offset) = v)
    (h : byteAt content i = v ∨ ∃ w ∈ ws, w.Covers i) : byteAt (pwriteAll content ws) i = v := by
  induction ws generalizing content with
  | nil => exact h.resolve_right fun ⟨_, hw, _⟩ => absurd hw List.not_mem_nil
  | cons w ws ih =>
    refine ih (fun w' hw' => hagree w' (List.mem_cons_of_mem _ hw')) ?_
    by_cases hcovers : w.Covers i
    · left
      rw [hcovers.byteAt]
      exact hagree w List.mem_cons_self hcovers
    · rw [Write.byteAt_of_not_covers hcovers]
      rcases h with hbyte | ⟨w', hw', hcovers'⟩
      · exact .inl hbyte
      · refine .inr ⟨w', (List.mem_cons.mp hw').resolve_left ?_, hcovers'⟩
        rintro rfl
        exact hcovers hcovers'

theorem length_le_pwriteAll : content.length ≤ (pwriteAll content ws).length := by
  induction ws generalizing content with
  | nil => exact le_rfl
  | cons w ws ih =>
    have hwrite : content.length ≤ (pwrite content w.offset w.data).length := length_pwrite ▸ le_max_left _ _
    exact hwrite.trans ih

theorem pwriteAll_length_le {n : ℕ} (hcontent : content.length ≤ n) (hws : ∀ w ∈ ws, w.offset + w.data.length ≤ n) :
    (pwriteAll content ws).length ≤ n := by
  induction ws generalizing content with
  | nil => exact hcontent
  | cons w ws ih =>
    refine ih ?_ fun w' hw' => hws w' (List.mem_cons_of_mem _ hw')
    rw [length_pwrite]
    exact max_le hcontent (hws w List.mem_cons_self)

theorem end_le_length_pwriteAll (hw : w ∈ ws) : w.offset + w.data.length ≤ (pwriteAll content ws).length := by
  induction ws generalizing content with
  | nil => exact absurd hw List.not_mem_nil
  | cons w' ws ih =>
    rcases List.mem_cons.mp hw with rfl | hw
    · exact le_length_pwrite.trans length_le_pwriteAll
    · exact ih hw

end All

end Ylem
