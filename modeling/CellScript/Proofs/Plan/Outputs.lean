import CellScript.Proofs.Printing

/-! Outputs along a plan. An output carries what a plan prints, and whether it takes everything makes no other
difference: where two outputs are refused nothing, the same plan ends with the same value. -/
namespace CellScript

open Run

/-- An output that was refused something takes nothing any more. -/
theorem Output.usable_of_write {o : Output} {t : Text} (usable : (o.write t).failed = false) :
    o.failed = false := by
  cases failed : o.failed with
  | false => rfl
  | true =>
    unfold Output.write at usable
    rw [if_pos failed] at usable
    exact failed.symm.trans usable

theorem Output.carries_self (o : Output) : o.Carries o.sink.text o.pending.toList :=
  .of_shown (text_shown o) List.prefix_rfl

namespace Plan

variable {α : Type}

/-- What holds of an output and a text, and still does after more is written, holds of all that a plan
prints. -/
theorem law_of_output {J : Text → Output → Prop} (write : ∀ {t o} u, J t o → J (t ++ u) (o.write u))
    (shown : ∀ {t o}, J t o → J t o.beforeRead) (mark : ∀ {t o} ended, J t o → J t (o.mark ended)) :
    Law fun past m => J (past.flatMap Deed.printed) m.output where
  act {_ past m} a holds := by
    rw [a.output_run, List.flatMap_append, List.flatMap_singleton]
    exact write (a.printed m) holds
  unread {past m m' _ _} holds ended := by
    have same : m' = _ := reached_of_shown ended
    subst same
    exact shown holds
  read {past m m' span} kind holds ended := by
    have same : m' = _ := reached_of_shown ended
    subst same
    obtain ⟨ended, output⟩ := output_takeValue span kind { m with output := m.output.beforeRead }
    rw [output, List.flatMap_append, List.flatMap_singleton]
    exact (List.append_nil (past.flatMap Deed.printed)).symm ▸ mark ended (shown holds)
  enter {past _ _ _ _ _ _} _ _ _ holds _ := by
    rw [List.flatMap_append, List.flatMap_singleton]
    exact (List.append_nil (past.flatMap Deed.printed)).symm ▸ holds
  opened _ holds := holds
  closed holds _ := holds
  counted _ holds := holds
  emptied holds := holds

theorem carries {s t : Text} (x : Plan α) {m : Machine} (carries : m.output.Carries s t) :
    (reached (x.run m)).output.Carries s (t ++ x.printed m) := by
  have law := law_of_output (J := fun u o => o.Carries s (t ++ u))
    (fun u holds => by rw [← List.append_assoc]; exact holds.write u) (·.beforeRead)
    (fun ended holds => holds.mark ended)
  have start : m.output.Carries s (t ++ ([] : List Deed).flatMap Deed.printed) :=
    (List.append_nil t).symm ▸ carries
  exact law.run x start

theorem carries_of_ok {s t : Text} {x : Plan α} {a : α} {m m' : Machine} (ended : x.run m = .ok a m')
    (carries : m.output.Carries s t) : m'.output.Carries s (t ++ x.printed m) := by
  have after := x.carries carries
  rwa [ended] at after

theorem free (x : Plan α) {m : Machine} (free : m.output.Free) : (reached (x.run m)).output.Free := by
  have law := law_of_output (J := fun _ o => o.Free) (fun u holds => (holds.write u).1)
    (fun holds => by rw [holds.beforeRead]; exact holds.flush) (fun ended holds => holds.mark ended)
  exact @Law.run α _ [] m law x free

theorem free_of_ok {x : Plan α} {a : α} {m m' : Machine} (ended : x.run m = .ok a m')
    (free : m.output.Free) : m'.output.Free := by
  have after := x.free free
  rwa [ended] at after

/-- A plan that ends with a value where nothing is refused so far ends with the same value elsewhere, unless
output is refused there. -/
theorem run_elsewhere {x : Plan α} {m m' : Machine} {a : α} (ended : x.run m = .ok a m')
    (usable : m.output.failed = false) {o : Output} (usable' : o.failed = false) :
    (∃ p, x.run { m with output := o } = .ok a { m' with output := p }) ∨
      ∃ e n, x.run { m with output := o } = .error (.fault e) n ∧ n.output.failed = true := by
  -- a run that is refused nothing, which is like both
  have aside (q : Output) (usable : q.failed = false) :=
    (refusing q.sink.text).run x (m := { m with output := .toSink (.unlimited true) })
      ⟨Output.free_toSink rfl, usable, q.carries_self⟩
  have first := aside m.output usable
  have second := aside o usable'
  have here : x.run { m with output := m.output } = .ok a m' := ended
  generalize x.run { m with output := m.output } = left at first here
  generalize x.run { m with output := o } = right at second ⊢
  generalize x.run { m with output := .toSink (.unlimited true) } = r at first second
  cases first with
  | broken => cases here
  | @same q related =>
    cases r with
    | error stop n => cases here
    | ok b n =>
      cases here
      cases second with
      | @same p related => exact .inl ⟨p, rfl⟩
      | @broken e n' broken => exact .inr ⟨e, n', rfl, broken.1⟩

end Plan

end CellScript
