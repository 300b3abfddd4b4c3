import Mathlib.Data.List.Basic

set_option autoImplicit false

/-! # Ledgers

A sequence that has been cut into blocks, each block either kept or dropped as a whole. Where a
component may only discard whole blocks, a ledger says which part of its input is left: `all` is the
input, `kept` what is left of it and `dropped` what is not, both in the order of the input.

Blocks that are put in places as wholes put their elements there: `exists_placed`. -/

universe u v w

variable {α : Type u}

/-- Blocks, and whether each is kept. -/
abbrev Ledger (α : Type u) := List (List α × Bool)

namespace Ledger

def all (l : Ledger α) : List α := l.flatMap (·.1)

def kept (l : Ledger α) : List (List α) := (l.filter (·.2)).map (·.1)

def dropped (l : Ledger α) : List (List α) := (l.filter fun b => !b.2).map (·.1)

/-- Blocks of one fate. -/
def mark (fate : Bool) (blocks : List (List α)) : Ledger α := blocks.map (·, fate)

@[simp] theorem all_append (l l' : Ledger α) : all (l ++ l') = all l ++ all l' := by simp [all]

@[simp] theorem kept_append (l l' : Ledger α) : kept (l ++ l') = kept l ++ kept l' := by
  simp [kept]

@[simp] theorem dropped_append (l l' : Ledger α) : dropped (l ++ l') = dropped l ++ dropped l' := by
  simp [dropped]

@[simp] theorem all_mark (fate : Bool) (blocks : List (List α)) :
    all (mark fate blocks) = blocks.flatten := by
  simp [all, mark, List.flatMap_def, Function.comp_def]

@[simp] theorem kept_mark_true (blocks : List (List α)) : kept (mark true blocks) = blocks := by
  simp [kept, mark, List.filter_map, Function.comp_def]

@[simp] theorem kept_mark_false (blocks : List (List α)) : kept (mark false blocks) = [] := by
  simp [kept, mark, List.filter_map, Function.comp_def]

@[simp] theorem dropped_mark_true (blocks : List (List α)) : dropped (mark true blocks) = [] := by
  simp [dropped, mark, List.filter_map, Function.comp_def]

@[simp] theorem dropped_mark_false (blocks : List (List α)) :
    dropped (mark false blocks) = blocks := by
  simp [dropped, mark, List.filter_map, Function.comp_def]

/-- What is kept when nothing is dropped. -/
theorem flatten_kept {l : Ledger α} (h : dropped l = []) : (kept l).flatten = all l := by
  induction l with
  | nil => rfl
  | cons b l ih =>
      obtain ⟨block, fate⟩ := b
      cases fate with
      | true =>
          have htail := ih (by simpa [dropped] using h)
          simpa [kept, all] using htail
      | false => exact absurd h (by simp [dropped])

/-- Every element is kept or dropped. -/
theorem perm_all (l : Ledger α) : (all l).Perm ((kept l).flatten ++ (dropped l).flatten) := by
  induction l with
  | nil => exact .refl _
  | cons b l ih =>
      obtain ⟨block, fate⟩ := b
      cases fate with
      | true => simpa [all, kept, dropped] using ih.append_left block
      | false =>
          have htail := (ih.append_left block).trans
            (List.perm_append_comm_assoc block (kept l).flatten (dropped l).flatten)
          simpa [all, kept, dropped] using htail

/-! ## Blocks in places -/

/-- What is put in a place. -/
def placedIn {ν : Type v} [DecidableEq ν] (place : ν) (l : List (ν × α)) : List α :=
  (l.filter (·.1 = place)).map (·.2)

/-- Texts are put in places, and each is the text of a block: so the elements of the blocks are put
    in places, in the same order. -/
theorem exists_placed {β : Type w} {ν : Type v} [DecidableEq ν] (text : β → List α)
    {texts : List (ν × List α)} {blocks : List (List β)}
    (h : blocks.map (·.flatMap text) = texts.map (·.2)) :
    ∃ placed : List (ν × β), placed.map (·.2) = blocks.flatten ∧
      ∀ place, (placedIn place placed).flatMap text = (placedIn place texts).flatten := by
  induction texts generalizing blocks with
  | nil =>
      obtain rfl : blocks = [] := by simpa using h
      exact ⟨[], rfl, fun _ => rfl⟩
  | cons entry texts ih =>
      obtain ⟨block, blocks, rfl⟩ : ∃ block rest, blocks = block :: rest :=
        List.exists_cons_of_ne_nil fun hnil => by simp [hnil] at h
      obtain ⟨htext, hrest⟩ := List.cons.inj h
      obtain ⟨placed, hall, hplaces⟩ := ih hrest
      refine ⟨block.map (entry.1, ·) ++ placed, ?_, ?_⟩
      · simp [hall, Function.comp_def]
      · intro place
        have hplace := hplaces place
        unfold placedIn at hplace ⊢
        by_cases heq : entry.1 = place
        · simp [List.filter_map, Function.comp_def, heq, hplace, ← htext]
        · simp [List.filter_map, Function.comp_def, heq, hplace]

theorem placedIn_map {β : Type w} {ν : Type v} [DecidableEq ν] (f : β → α) (place : ν)
    (l : List (ν × β)) :
    placedIn place (l.map fun e => (e.1, f e.2)) = (placedIn place l).map f := by
  simp [placedIn, List.filter_map, Function.comp_def]

theorem mem_of_mem_placedIn {ν : Type v} [DecidableEq ν] {place : ν} {l : List (ν × α)} {x : α}
    (h : x ∈ placedIn place l) : x ∈ l.map (·.2) := by
  obtain ⟨entry, hentry, rfl⟩ := List.mem_map.1 h
  exact List.mem_map_of_mem (List.mem_of_mem_filter hentry)

/-- Texts in places that begin the texts of some entries are the texts of the first entries. -/
theorem exists_entries {β : Type w} {ν : Type v} (text : β → α) {texts : List (ν × α)}
    {entries : List β} (h : texts.map (·.2) <+: entries.map text) :
    ∃ placed : List (ν × β), placed.map (·.2) <+: entries ∧
      texts = placed.map fun e => (e.1, text e.2) := by
  induction texts generalizing entries with
  | nil => exact ⟨[], List.nil_prefix, rfl⟩
  | cons entry texts ih =>
      cases entries with
      | nil => exact absurd (List.prefix_nil.1 h) (by simp)
      | cons e entries =>
          rw [List.map_cons, List.map_cons, List.cons_prefix_cons] at h
          obtain ⟨htext, hrest⟩ := h
          obtain ⟨placed, hprefix, rfl⟩ := ih hrest
          refine ⟨(entry.1, e) :: placed, List.cons_prefix_cons.2 ⟨rfl, hprefix⟩, ?_⟩
          rw [List.map_cons, ← htext]

end Ledger
