import Mathlib.Data.List.Basic
import Muduo.Lib.Trace

set_option autoImplicit false

/-! # Streams of texts that frame themselves

A reader of a stream takes one item after the other off its front: `cut` answers the item and what
follows it, or `none` while the item has not come completely. Where every text is cut off whatever
follows it (`Frames`), a reader of any part of the stream has the items whose texts have come
(`items_of_prefix`), and of the whole stream all of them (`items_flatMap`). -/

universe u v w

namespace Framing

variable {α : Type u} {δ : Type v} {ρ : Type w} {cut : List α → Option (δ × List α)}

/-- At most `fuel` items. -/
def itemsLoop (cut : List α → Option (δ × List α)) : (fuel : Nat) → List α → List δ
  | 0, _ => []
  | fuel + 1, stream =>
      match cut stream with
      | none => []
      | some (item, rest) => item :: itemsLoop cut fuel rest

/-- The items that have come completely. -/
def items (cut : List α → Option (δ × List α)) (stream : List α) : List δ :=
  itemsLoop cut stream.length stream

/-- A text is cut off as a whole, and not before it has come. A text with `last` is only known to be
    cut off at the end of the stream. -/
structure Frames (cut : List α → Option (δ × List α)) (text : List α) (item : δ) (last : Prop) :
    Prop where
  whole : ∀ rest, (last → rest = []) → cut (text ++ rest) = some (item, rest)
  part : ∀ stream, stream <+: text → stream ≠ text → cut stream = none

/-- What a reader has of a part of the stream: the items of the texts that have come, and no item
    of the text that has come in part. -/
structure Received (cut : List α → Option (δ × List α)) (text : ρ → List α) (item : ρ → δ)
    (done rest : List ρ) (stream : List α) : Prop where
  /-- What has come behind them is a part of the next text. -/
  come : ∃ part, stream = done.flatMap text ++ part ∧
    (∀ r ∈ rest.head?, part <+: text r ∧ part ≠ text r) ∧ (rest = [] → part = [])
  items : ∀ fuel, stream.length ≤ fuel → itemsLoop cut fuel stream = done.map item

variable {text : ρ → List α} {item : ρ → δ} {last : ρ → Prop} {rs : List ρ} {stream : List α}

theorem itemsLoop_none (h : cut stream = none) (fuel : Nat) : itemsLoop cut fuel stream = [] := by
  cases fuel with
  | zero => rfl
  | succ fuel => rw [itemsLoop, h]

theorem received_of_prefix (hnil : cut [] = none)
    (h : ∀ r ∈ rs, Frames cut (text r) (item r) (last r))
    (hlast : Trace.NeverAfter last (fun _ => True) rs) (hstream : stream <+: rs.flatMap text) :
    ∃ done rest, rs = done ++ rest ∧ Received cut text item done rest stream := by
  induction rs generalizing stream with
  | nil =>
      obtain rfl := List.prefix_nil.1 hstream
      exact ⟨[], [], rfl, ⟨[], rfl, by simp, fun _ => rfl⟩, fun fuel _ => itemsLoop_none hnil fuel⟩
  | cons r rs ih =>
      obtain ⟨hbehind, htail⟩ := List.pairwise_cons.1 hlast
      have hframes := h r List.mem_cons_self
      rw [List.flatMap_cons] at hstream
      by_cases hcome : text r <+: stream
      · obtain ⟨more, rfl⟩ := hcome
        rw [List.prefix_append_right_inj] at hstream
        obtain ⟨done, rest, rfl, ⟨part, hmore, hpart⟩, hitems⟩ :=
          ih (fun r hr => h r (List.mem_cons_of_mem _ hr)) htail hstream
        refine ⟨r :: done, rest, rfl, ⟨part, by simp [hmore], hpart⟩, fun fuel hfuel => ?_⟩
        have hend : last r → more = [] := by
          intro hr
          cases hrest : done ++ rest with
          | nil => simpa [hrest] using hstream
          | cons r' rs' => exact absurd trivial (hbehind r' (by simp [hrest]) hr)
        have hne : text r ≠ [] := by
          intro hempty
          have hcut := hframes.whole [] fun _ => rfl
          rw [hempty, List.nil_append, hnil] at hcut
          exact absurd hcut (by simp)
        have hpos := List.length_pos_iff.2 hne
        rw [List.length_append] at hfuel
        obtain ⟨fuel, rfl⟩ := Nat.exists_eq_add_of_le' (by omega : 1 ≤ fuel)
        rw [itemsLoop, hframes.whole more hend]
        simp only [hitems fuel (by omega), List.map_cons]
      · have hpart : stream <+: text r :=
          (List.prefix_or_prefix_of_prefix hstream (List.prefix_append _ _)).resolve_right hcome
        have hshort : stream ≠ text r := fun hall => hcome (hall ▸ List.prefix_refl _)
        refine ⟨[], r :: rs, rfl, ⟨stream, rfl, by simp [hpart, hshort], by simp⟩,
          fun fuel _ => ?_⟩
        exact itemsLoop_none (hframes.part stream hpart hshort) fuel

/-- At every moment the reader has the first items. -/
theorem items_prefix (hnil : cut [] = none) (h : ∀ r ∈ rs, Frames cut (text r) (item r) (last r))
    (hlast : Trace.NeverAfter last (fun _ => True) rs) (hstream : stream <+: rs.flatMap text) :
    items cut stream <+: rs.map item := by
  obtain ⟨done, rest, rfl, -, hitems⟩ := received_of_prefix hnil h hlast hstream
  rw [items, hitems _ (Nat.le_refl _), List.map_append]
  exact List.prefix_append _ _

/-- In the end the reader has all of them. -/
theorem items_flatMap (hnil : cut [] = none) (h : ∀ r ∈ rs, Frames cut (text r) (item r) (last r))
    (hlast : Trace.NeverAfter last (fun _ => True) rs) :
    items cut (rs.flatMap text) = rs.map item := by
  obtain ⟨done, rest, rfl, ⟨part, hpart, hnext, hend⟩, hitems⟩ :=
    received_of_prefix hnil h hlast (List.prefix_refl _)
  rw [items, hitems _ (Nat.le_refl _)]
  rw [List.flatMap_append, List.append_cancel_left_eq] at hpart
  cases rest with
  | nil => simp
  | cons r rest =>
      -- the text of `r` would be there and not be there
      obtain ⟨hinitial, hne⟩ := hnext r rfl
      rw [← hpart, List.flatMap_cons] at hinitial hne
      have hlength := hinitial.length_le
      rw [List.length_append] at hlength
      have hnil : rest.flatMap text = [] := List.length_eq_zero_iff.1 (by omega)
      exact absurd (by rw [hnil, List.append_nil]) hne

end Framing
