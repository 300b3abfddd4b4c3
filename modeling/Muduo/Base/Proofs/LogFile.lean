import Mathlib.Tactic.Linarith
import Muduo.Base.LogFile
import Muduo.Lib.History
import Muduo.Lib.Ledger

set_option autoImplicit false

/-! # The files of a log

`Kept` is where the messages are: each in the file that was open when it was appended, behind what
was there before, in the order of the calls. It holds whatever the clock shows and whenever the
stream passes on what it has. -/

namespace LogFile

variable {localtime : Int → Tm} {files : Bytes → Option Bytes} {args : Args} {now : Int}
variable {name : Bytes} {l t : LogFile} {a : Action} {msg : Bytes} {answer : Answer}

/-! ## What the functions do -/

theorem rollFile_cases (localtime : Int → Tm) (l : LogFile) (now : Int) :
    (l.lastRoll < now ∧ (l.rollFile localtime now).2 =
      { l with
        filename := logFileName localtime l.basename now
        lastRoll := now
        lastFlush := now
        start := dayOf now
        file := l.file.close.openFile (logFileName localtime l.basename now) }) ∨
      now ≤ l.lastRoll ∧ (l.rollFile localtime now).2 = l := by
  unfold rollFile
  split
  · next hlater => exact Or.inl ⟨hlater, rfl⟩
  · next hlater => exact Or.inr ⟨by omega, rfl⟩

theorem check_cases (localtime : Int → Tm) (l : LogFile) (answer : Answer) :
    (l.count + 1 < l.checkEveryN ∧ l.check localtime answer = { l with count := l.count + 1 }) ∨
      (dayOf answer.now ≠ l.start ∧ l.check localtime answer =
        ({ l with count := 0 }.rollFile localtime answer.rollNow).2) ∨
      dayOf answer.now = l.start ∧ (l.check localtime answer = { l with count := 0 } ∨
        l.check localtime answer =
          { l with count := 0, lastFlush := answer.now, file := l.file.flush }) := by
  simp only [LogFile.check]
  split
  · split
    · next hday => exact Or.inr (Or.inl ⟨hday, rfl⟩)
    · next hday =>
        have heq : dayOf answer.now = l.start := not_not.1 hday
        split
        · exact Or.inr (Or.inr ⟨heq, Or.inr rfl⟩)
        · exact Or.inr (Or.inr ⟨heq, Or.inl rfl⟩)
  · next hfew => exact Or.inl ⟨by omega, rfl⟩

theorem append_cases (h : l.append localtime msg answer = some t) :
    t = ((l.write msg answer).rollFile localtime answer.rollNow).2 ∨
      t = (l.write msg answer).check localtime answer := by
  obtain ⟨file, -, rfl⟩ := Option.map_eq_some_iff.1 h
  simp only
  split
  · exact Or.inl rfl
  · exact Or.inr rfl

/-! ## Where the messages are -/

/-- The messages that were written to a file. -/
def routedTo (l : LogFile) (name : Bytes) : List Bytes :=
  (l.routed.filter (·.file = some name)).map (·.msg)

structure Kept (localtime : Int → Tm) (files : Bytes → Option Bytes) (name : Bytes)
    (l : LogFile) : Prop where
  basename : l.basename = name
  opened : l.file.file = some l.filename
  there : (l.file.files l.filename).isSome
  named : l.filename = logFileName localtime name l.lastRoll
  delivered : ∀ file, l.file.delivered file = (files file).getD [] ++ (l.routedTo file).flatten
  routed : ∀ r ∈ l.routed, r.file = some (logFileName localtime name r.opened)
  last : ∀ r ∈ l.routed, r.opened ≤ l.lastRoll
  sorted : (l.routed.map (·.opened)).Pairwise (· ≤ ·)

theorem Kept.write (h : l.Kept localtime files name) (msg : Bytes) (answer : Answer) :
    (l.write msg answer).Kept localtime files name where
  basename := h.basename
  opened := (l.file.file_write msg answer.spill).trans h.opened
  there := Appending.isSome_write msg answer.spill h.there
  named := h.named
  delivered file := by
    have hto : (l.write msg answer).routedTo file =
        l.routedTo file ++ if l.file.file = some file then [msg] else [] := by
      by_cases heq : l.file.file = some file <;> simp [LogFile.write, routedTo, heq]
    rw [hto, List.flatten_append, ← List.append_assoc, ← h.delivered file]
    refine (l.file.delivered_write msg answer.spill file).trans ?_
    split <;> simp
  routed r hr := by
    rcases List.mem_append.1 hr with hold | hnew
    · exact h.routed r hold
    · obtain rfl := List.mem_singleton.1 hnew
      exact h.opened.trans (congrArg some h.named)
  last r hr := by
    rcases List.mem_append.1 hr with hold | hnew
    · exact h.last r hold
    · obtain rfl := List.mem_singleton.1 hnew
      exact le_refl _
  sorted := by
    refine (List.map_append ..).symm ▸ List.pairwise_append.2 ⟨h.sorted, by simp, ?_⟩
    intro x hx y hy
    obtain ⟨r, hr, rfl⟩ := List.mem_map.1 hx
    obtain rfl : y = l.lastRoll := by simpa using hy
    exact h.last r hr

/-- A roll closes one file and opens the next. -/
theorem Kept.rollFile (h : l.Kept localtime files name) (now : Int) :
    (l.rollFile localtime now).2.Kept localtime files name := by
  rcases rollFile_cases localtime l now with ⟨hlater, heq⟩ | ⟨-, heq⟩
  · rw [heq]
    refine ⟨h.basename, rfl, Appending.isSome_openFile _ _, ?_, ?_, h.routed, ?_, h.sorted⟩
    · exact congrArg (logFileName localtime · now) h.basename
    · intro file
      refine Eq.trans ?_ (h.delivered file)
      rw [← l.file.delivered_close file]
      exact Appending.delivered_openFile l.file.buffered_close _ file
    · intro r hr
      exact (h.last r hr).trans (le_of_lt hlater)
  · rwa [heq]

/-- The counters do not matter. -/
theorem Kept.setCount (h : l.Kept localtime files name) (count lastFlush : Int) :
    { l with count := count, lastFlush := lastFlush }.Kept localtime files name :=
  ⟨h.basename, h.opened, h.there, h.named, h.delivered, h.routed, h.last, h.sorted⟩

theorem Kept.flush (h : l.Kept localtime files name) : l.flush.Kept localtime files name where
  basename := h.basename
  opened := l.file.file_flush.trans h.opened
  there := Appending.isSome_pass _ h.there
  named := h.named
  delivered file := (l.file.delivered_flush file).trans (h.delivered file)
  routed := h.routed
  last := h.last
  sorted := h.sorted

theorem Kept.check (h : l.Kept localtime files name) (answer : Answer) :
    (l.check localtime answer).Kept localtime files name := by
  rcases check_cases localtime l answer with ⟨-, heq⟩ | ⟨-, heq⟩ | ⟨-, heq | heq⟩
  · exact heq ▸ h.setCount _ _
  · exact heq ▸ (h.setCount 0 l.lastFlush).rollFile _
  · exact heq ▸ h.setCount _ _
  · exact heq ▸ h.flush.setCount 0 answer.now

theorem Kept.append (h : l.Kept localtime files name)
    (hstep : l.append localtime msg answer = some t) : t.Kept localtime files name := by
  rcases append_cases hstep with rfl | rfl
  · exact (h.write msg answer).rollFile _
  · exact (h.write msg answer).check _

/-- `file_size` finds the file. -/
theorem Kept.append_isSome (h : l.Kept localtime files name) (msg : Bytes) (answer : Answer) :
    (l.append localtime msg answer).isSome :=
  (Option.isSome_map ..).trans (h.write msg answer).there

theorem kept_new (args : Args) (hnow : 0 < now) :
    (new localtime files args now).Kept localtime files args.name := by
  unfold new
  rw [LogFile.rollFile, if_pos hnow]
  refine ⟨rfl, rfl, Appending.isSome_openFile _ _, rfl, ?_, by simp, by simp, by simp⟩
  intro file
  exact (Appending.delivered_openFile rfl _ file).trans (by simp [routedTo])

theorem Kept.step (h : l.Kept localtime files name) (hstep : l.step localtime a = some t) :
    t.Kept localtime files name := by
  cases a with
  | append msg answer => exact h.append hstep
  | flush => exact Option.some.inj hstep ▸ h.flush
  | rollFile now => exact Option.some.inj hstep ▸ h.rollFile now

theorem kept_of_reaches {ok : LogFile → Action → Prop} {as : List Action} (hnow : 0 < now)
    (run : (machine localtime files args now).Reaches ok as l) :
    l.Kept localtime files args.name := by
  refine run.invariant ?_ fun l a t h _ hstep => h.step hstep
  rintro l rfl
  exact kept_new args hnow

/-! ## What the files say -/

/-- What is left of `Kept` when the file is closed. -/
structure Held (files : Bytes → Option Bytes) (l : LogFile) : Prop where
  delivered : ∀ file, l.file.delivered file = (files file).getD [] ++ (l.routedTo file).flatten
  routed : ∀ r ∈ l.routed, r.file.isSome

theorem Kept.held (h : l.Kept localtime files name) : l.Held files :=
  ⟨h.delivered, fun r hr => Option.isSome_of_eq_some (h.routed r hr)⟩

theorem Held.destroy (h : l.Held files) : l.destroy.Held files :=
  ⟨fun file => (l.file.delivered_close file).trans (h.delivered file), h.routed⟩

/-- The messages with their files. -/
def texts (l : LogFile) : List (Bytes × Bytes) := l.routed.map fun r => (r.file.getD [], r.msg)

theorem Held.placedIn_texts (h : l.Held files) (file : Bytes) :
    Ledger.placedIn file l.texts = l.routedTo file := by
  have hsame : ∀ r ∈ l.routed, decide (r.file.getD [] = file) = decide (r.file = some file) := by
    intro r hr
    obtain ⟨name, hname⟩ := Option.isSome_iff_exists.1 (h.routed r hr)
    simp [hname]
  rw [routedTo, ← List.filter_congr hsame]
  simp [Ledger.placedIn, texts, List.filter_map, Function.comp_def]

theorem routed_rollFile (localtime : Int → Tm) (l : LogFile) (now : Int) :
    (l.rollFile localtime now).2.routed = l.routed := by
  rcases rollFile_cases localtime l now with ⟨-, heq⟩ | ⟨-, heq⟩ <;> rw [heq]

theorem routed_check (localtime : Int → Tm) (l : LogFile) (answer : Answer) :
    (l.check localtime answer).routed = l.routed := by
  rcases check_cases localtime l answer with ⟨-, heq⟩ | ⟨-, heq⟩ | ⟨-, heq | heq⟩
  · rw [heq]
  · rw [heq, routed_rollFile]
  · rw [heq]
  · rw [heq]

theorem routed_append (h : l.append localtime msg answer = some t) :
    t.routed = (l.write msg answer).routed := by
  rcases append_cases h with rfl | rfl
  · exact routed_rollFile _ _ _
  · exact routed_check _ _ _

theorem messages_step (h : l.step localtime a = some t) :
    t.routed.map (·.msg) = l.routed.map (·.msg) ++ a.msg.toList := by
  cases a with
  | append msg answer =>
      rw [routed_append h]
      simp [LogFile.write, Action.msg]
  | flush =>
      obtain rfl := Option.some.inj h
      simp [LogFile.flush, Action.msg]
  | rollFile now =>
      obtain rfl := Option.some.inj h
      simp [routed_rollFile, Action.msg]

theorem messages_of_reaches {ok : LogFile → Action → Prop} {as : List Action}
    (run : (machine localtime files args now).Reaches ok as l) :
    l.routed.map (·.msg) = as.filterMap Action.msg := by
  refine run.history (I := fun as l => l.routed.map (·.msg) = as.filterMap Action.msg) ?_ ?_
  · rintro l rfl
    rw [new, routed_rollFile]
    rfl
  · intro as l a t h _ hstep
    rw [messages_step hstep, h, List.filterMap_append]
    cases hmsg : a.msg <;> simp [hmsg]

/-- The second of a minute is all that changes. -/
def sameMinute (now : Int) : Tm := ⟨124, 0, 1, 0, 0, now⟩

/-- The second message makes the file too big, so the third one is in a new file. -/
def threeMessages : List Action :=
  [.append (bytes "a\n") ⟨1, 1, 2⟩, .append (bytes "bb\n") ⟨2, 2, 3⟩,
    .append (bytes "c\n") ⟨3, 3, 0⟩]

end LogFile
