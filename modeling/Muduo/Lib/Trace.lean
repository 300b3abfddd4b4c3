import Muduo.Lib.Machine

set_option autoImplicit false

/-! # Safety of traces

`NeverAfter p q trace` says that behind an event with `p` no event with `q` occurs. A trace grows at
its end, so the property is kept in two ways: nothing with `p` has happened yet, or nothing with `q`
is added. `Machine.Reaches.neverAfter` is the rule for the runs of a machine that keeps a trace: an
event with `p` leads to a state that is `down`, and in such a state nothing with `q` happens. -/

universe u v w

namespace Trace

variable {ε : Type u} {p q p' q' : ε → Prop} {trace es : List ε}

/-- No event with `q` behind an event with `p`. -/
def NeverAfter (p q : ε → Prop) (trace : List ε) : Prop := trace.Pairwise fun a b => p a → ¬ q b

theorem neverAfter_nil : NeverAfter p q ([] : List ε) := List.Pairwise.nil

theorem neverAfter_of_absent (h : ∀ e ∈ trace, ¬ p e) : NeverAfter p q trace :=
  List.pairwise_of_forall_mem_list fun a ha _ _ hp => absurd hp (h a ha)

theorem neverAfter_of_quiet (h : ∀ e ∈ trace, ¬ q e) : NeverAfter p q trace :=
  List.pairwise_of_forall_mem_list fun _ _ b hb _ => h b hb

/-- As long as nothing with `p` has happened, only the new events matter. -/
theorem NeverAfter.append_of_absent (habsent : ∀ e ∈ trace, ¬ p e) (h : NeverAfter p q es) :
    NeverAfter p q (trace ++ es) :=
  List.pairwise_append.2
    ⟨neverAfter_of_absent habsent, h, fun a ha _ _ hp => absurd hp (habsent a ha)⟩

/-- New events without `q` are harmless. -/
theorem NeverAfter.append_of_quiet (h : NeverAfter p q trace) (hquiet : ∀ e ∈ es, ¬ q e) :
    NeverAfter p q (trace ++ es) :=
  List.pairwise_append.2 ⟨h, neverAfter_of_quiet hquiet, fun _ _ b hb _ => hquiet b hb⟩

/-- An event with `p` that comes last has nothing behind it. -/
theorem NeverAfter.concat_of_absent (e : ε) (habsent : ∀ e ∈ trace, ¬ p e) :
    NeverAfter p q (trace ++ [e]) :=
  .append_of_absent habsent (List.pairwise_singleton _ e)

theorem NeverAfter.mono (hp : ∀ e, p' e → p e) (hq : ∀ e, q' e → q e)
    (h : NeverAfter p q trace) : NeverAfter p' q' trace :=
  List.Pairwise.imp (fun hab ha hb => hab (hp _ ha) (hq _ hb)) h

/-- The property read at two places of the trace. -/
theorem NeverAfter.not_of_split {pre post : List ε} {a : ε} (h : NeverAfter p q (pre ++ a :: post))
    (ha : p a) : ∀ b ∈ post, ¬ q b := fun b hb =>
  (List.pairwise_cons.1 (List.pairwise_append.1 h).2.1).1 b hb ha

end Trace

/-- `I` is what the runs are known to keep. -/
theorem Machine.Reaches.neverAfter {ε : Type u} {σ : Type v} {α : Type w} {M : Machine σ α}
    {ok : σ → α → Prop} {p q : ε → Prop} {I down : σ → Prop} (trace : σ → List ε) {as : List α}
    {s : σ} (run : M.Reaches ok as s) (hinit : ∀ s, M.init s → trace s = [])
    (hinv : ∀ as s, M.Reaches ok as s → I s)
    (hdown : ∀ s a t, I s → down s → ok s a → M.step s a = some t →
      down t ∧ ∃ es, trace t = trace s ++ es ∧ ∀ e ∈ es, ¬ q e)
    (hstep : ∀ s a t, I s → ok s a → M.step s a = some t →
      ∃ es, trace t = trace s ++ es ∧ Trace.NeverAfter p q es ∧ ∀ e ∈ es, p e → down t) :
    Trace.NeverAfter p q (trace s) ∧ ∀ e ∈ trace s, p e → down s := by
  induction run with
  | init h =>
      rw [hinit _ h]
      exact ⟨Trace.neverAfter_nil, by simp⟩
  | @step as s t a run guard h ih =>
      obtain ⟨hnever, hlead⟩ := ih
      -- once the state is down it stays so; before that only the step's own events count
      by_cases hp : ∃ e ∈ trace s, p e
      · obtain ⟨e, he, hpe⟩ := hp
        obtain ⟨hdownt, es, htrace, hquiet⟩ :=
          hdown s a t (hinv as s run) (hlead e he hpe) guard h
        rw [htrace]
        exact ⟨hnever.append_of_quiet hquiet, fun _ _ _ => hdownt⟩
      · have habsent : ∀ e ∈ trace s, ¬ p e := fun e he hpe => hp ⟨e, he, hpe⟩
        obtain ⟨es, htrace, hnever', hlead'⟩ := hstep s a t (hinv as s run) guard h
        rw [htrace]
        refine ⟨.append_of_absent habsent hnever', ?_⟩
        intro e he hpe
        rcases List.mem_append.1 he with he | he
        · exact absurd hpe (habsent e he)
        · exact hlead' e he hpe
