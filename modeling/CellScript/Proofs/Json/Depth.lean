import CellScript.Proofs.Json.Codec

/-! What is read from any text: its number texts denote reals, it nests no deeper than the reader goes,
and a reader that may go deeper reads the same. -/
namespace CellScript.Json

open Reading

theorem run_bind_eq_some {α β : Type} {step : Reading α} {next : α → Reading β} {w w' : Window} {b : β} :
    (step >>= next).run w = some (b, w') ↔
      ∃ a m, step.run w = some (a, m) ∧ (next a).run m = some (b, w') := by
  rw [StateT.run_bind]
  cases step.run w with
  | none => simp
  | some r => simp [Prod.ext_iff, and_assoc]

theorem run_pure_eq_some {α : Type} {a b : α} {w w' : Window} :
    (pure a : Reading α).run w = some (b, w') ↔ a = b ∧ w = w' := by
  rw [StateT.run_pure]
  simp

theorem numberText_bytes {n : Nat} {w w' : Window} {t : Text} (read : (numberText n).run w = some (t, w')) :
    t.all isNumberByte := by
  induction n generalizing w t with
  | zero => cases read
  | succ n ih =>
    rw [numberText] at read
    obtain ⟨b, m, -, read⟩ := run_bind_eq_some.mp read
    split at read
    next number =>
      obtain ⟨-, m', -, read⟩ := run_bind_eq_some.mp read
      obtain ⟨t', m'', rest, read⟩ := run_bind_eq_some.mp read
      obtain ⟨rfl, rfl⟩ := run_pure_eq_some.mp read
      rw [List.all_cons, number, ih rest]
      rfl
    next =>
    split at read
    next =>
      obtain ⟨more, m', -, read⟩ := run_bind_eq_some.mp read
      split at read
      next => exact ih read
      next =>
        obtain ⟨rfl, -⟩ := run_pure_eq_some.mp read
        rfl
    next =>
      obtain ⟨rfl, -⟩ := run_pure_eq_some.mp read
      rfl

/-- What is read within a depth is clean, whatever its texts, and read alike by a reader that may go
deeper. -/
structure Within {α : Type} (clean : (Text → Bool) → α → Bool) (depth : α → Nat) (step : Nat → Reading α)
    (d : Nat) (w : Window) (a : α) (w' : Window) : Prop where
  clean : clean (fun _ => true) a
  depth : depth a ≤ d
  deeper : ∀ more, d ≤ more → (step more).run w = some (a, w')

section Within

variable {n d : Nat} {w w' : Window}

theorem run_of_eq_some {α β : Type} {step : Reading α} {next : α → Reading β} {m : Window} {a : α}
    (first : step.run w = some (a, m)) : (step >>= next).run w = (next a).run m := by
  rw [StateT.run_bind, first]
  rfl

/-- The items or members between brackets, of which there may be none. -/
theorem within_bracketed {α : Type} {close : UInt8} (wrap : List α → Json)
    {inner : Nat → Reading (List α)} {cleanAll : (Text → Bool) → List α → Bool}
    {depthAll : List α → Nat} (wrapped : ∀ js, clean (fun _ => true) (wrap js) = cleanAll (fun _ => true) js)
    (higher : ∀ js, depth (wrap js) = depthAll js + 1) (none : cleanAll (fun _ => true) [] = true)
    (flat : depthAll [] = 0)
    (ih : ∀ {w js w'}, (inner d).run w = some (js, w') → Within cleanAll depthAll inner d w js w')
    {j : Json}
    (read : (do advance; if (← afterSpace n) = close then (do advance; return wrap []) else
      return wrap (← inner d) : Reading Json).run w = some (j, w')) :
    clean (fun _ => true) j ∧ depth j ≤ d + 1 ∧ ∀ more, d ≤ more →
      (do advance; if (← afterSpace n) = close then (do advance; return wrap []) else
        return wrap (← inner more) : Reading Json).run w = some (j, w') := by
  obtain ⟨_, m, first, read⟩ := run_bind_eq_some.mp read
  obtain ⟨c, m', second, read⟩ := run_bind_eq_some.mp read
  simp only [run_of_eq_some first, run_of_eq_some second]
  split at read
  next closed =>
    obtain ⟨_, m'', third, last⟩ := run_bind_eq_some.mp read
    obtain ⟨rfl, -⟩ := run_pure_eq_some.mp last
    refine ⟨by rw [wrapped, none], by rw [higher, flat]; omega, fun more _ => ?_⟩
    rw [if_pos closed, read]
  next other =>
    obtain ⟨js, m'', third, last⟩ := run_bind_eq_some.mp read
    obtain ⟨rfl, rfl⟩ := run_pure_eq_some.mp last
    have within := ih third
    refine ⟨by rw [wrapped, within.clean], by rw [higher]; exact Nat.succ_le_succ within.depth,
      fun more enough => ?_⟩
    rw [if_neg other, run_of_eq_some (within.deeper more enough)]
    rfl

theorem within_value (ihItems : ∀ {d w js w'}, (items n d).run w = some (js, w') →
      Within cleanItems depthItems (items n) d w js w')
    (ihMembers : ∀ {d w js w'}, (members n d).run w = some (js, w') →
      Within cleanMembers depthMembers (members n) d w js w') {j : Json}
    (read : (value (n + 1) d).run w = some (j, w')) :
    Within clean depth (value (n + 1)) d w j w' := by
  unfold value at read
  obtain ⟨b, m, first, read⟩ := run_bind_eq_some.mp read
  by_cases bracket : b = byte '['
  · subst bracket
    rw [if_neg (by decide), if_pos rfl] at read
    cases d with
    | zero => cases read
    | succ d =>
    obtain ⟨clean, depth, deeper⟩ := within_bracketed array (fun js => by rw [clean])
      (fun js => by rw [depth]) rfl rfl ihItems read
    refine ⟨clean, depth, fun more enough => ?_⟩
    obtain ⟨more, rfl⟩ : ∃ k, more = k + 1 := ⟨more - 1, by omega⟩
    unfold value
    rw [run_of_eq_some first, if_neg (by decide), if_pos rfl]
    exact deeper more (by omega)
  by_cases brace : b = 0x7B
  · subst brace
    rw [if_neg (by decide), if_neg (by decide), if_pos rfl] at read
    cases d with
    | zero => cases read
    | succ d =>
    obtain ⟨clean, depth, deeper⟩ := within_bracketed object (fun js => by rw [clean])
      (fun js => by rw [depth]) rfl rfl ihMembers read
    refine ⟨clean, depth, fun more enough => ?_⟩
    obtain ⟨more, rfl⟩ : ∃ k, more = k + 1 := ⟨more - 1, by omega⟩
    unfold value
    rw [run_of_eq_some first, if_neg (by decide), if_neg (by decide), if_pos rfl]
    exact deeper more (by omega)
  -- Nothing else depends on the depth.
  have deeper : ∀ more, d ≤ more → (value (n + 1) more).run w = some (j, w') := by
    intro more _
    unfold value
    rw [run_of_eq_some first, if_neg bracket, if_neg brace]
    rwa [if_neg bracket, if_neg brace] at read
  suffices flat : clean (fun _ => true) j ∧ depth j = 0 from
    ⟨flat.1, by rw [flat.2]; exact Nat.zero_le _, deeper⟩
  rw [if_neg bracket, if_neg brace] at read
  split at read
  next =>
    obtain ⟨_, _, -, read⟩ := run_bind_eq_some.mp read
    obtain ⟨t, _, -, read⟩ := run_bind_eq_some.mp read
    obtain ⟨rfl, -⟩ := run_pure_eq_some.mp read
    exact ⟨rfl, rfl⟩
  next =>
  split at read
  next starts =>
    obtain ⟨_, _, -, read⟩ := run_bind_eq_some.mp read
    obtain ⟨t, _, bytes, read⟩ := run_bind_eq_some.mp read
    simp only at read
    split at read
    next denotes =>
      obtain ⟨_, _, -, read⟩ := run_bind_eq_some.mp read
      obtain ⟨rfl, -⟩ := run_pure_eq_some.mp read
      refine ⟨?_, rfl⟩
      rw [clean, isNumeral, starts, numberText_bytes bytes, denotes]
      rfl
    next => cases read
  next =>
  split at read
  next =>
    obtain ⟨_, _, -, read⟩ := run_bind_eq_some.mp read
    obtain ⟨rfl, -⟩ := run_pure_eq_some.mp read
    exact ⟨rfl, rfl⟩
  next =>
  split at read
  next =>
    obtain ⟨_, _, -, read⟩ := run_bind_eq_some.mp read
    obtain ⟨rfl, -⟩ := run_pure_eq_some.mp read
    exact ⟨rfl, rfl⟩
  next =>
  split at read
  next =>
    obtain ⟨_, _, -, read⟩ := run_bind_eq_some.mp read
    obtain ⟨rfl, -⟩ := run_pure_eq_some.mp read
    exact ⟨rfl, rfl⟩
  next => cases read

theorem within_items (ihValue : ∀ {d w j w'}, (value n d).run w = some (j, w') →
      Within clean depth (value n) d w j w')
    (ihItems : ∀ {d w js w'}, (items n d).run w = some (js, w') →
      Within cleanItems depthItems (items n) d w js w') {js : List Json}
    (read : (items (n + 1) d).run w = some (js, w')) :
    Within cleanItems depthItems (items (n + 1)) d w js w' := by
  unfold items at read
  obtain ⟨j, m, first, read⟩ := run_bind_eq_some.mp read
  obtain ⟨b, m', second, read⟩ := run_bind_eq_some.mp read
  have item := ihValue first
  split at read
  next closed =>
    obtain ⟨_, m'', third, last⟩ := run_bind_eq_some.mp read
    obtain ⟨rfl, -⟩ := run_pure_eq_some.mp last
    refine ⟨?_, ?_, fun more enough => ?_⟩
    · rw [cleanItems, item.clean, cleanItems]
      rfl
    · simpa [depthItems] using item.depth
    · unfold items
      rw [run_of_eq_some (item.deeper more enough), run_of_eq_some second, if_pos closed, read]
  next other =>
  split at read
  next comma =>
    obtain ⟨_, m'', third, last⟩ := run_bind_eq_some.mp read
    obtain ⟨rest, m₃, fourth, last⟩ := run_bind_eq_some.mp last
    obtain ⟨rfl, rfl⟩ := run_pure_eq_some.mp last
    have others := ihItems fourth
    refine ⟨?_, ?_, fun more enough => ?_⟩
    · rw [cleanItems, item.clean, others.clean]
      rfl
    · rw [depthItems]
      exact Nat.max_le.mpr ⟨item.depth, others.depth⟩
    · unfold items
      rw [run_of_eq_some (item.deeper more enough), run_of_eq_some second, if_neg other, if_pos comma,
        run_of_eq_some third, run_of_eq_some (others.deeper more enough)]
      rfl
  next => cases read

theorem within_members (ihValue : ∀ {d w j w'}, (value n d).run w = some (j, w') →
      Within clean depth (value n) d w j w')
    (ihMembers : ∀ {d w js w'}, (members n d).run w = some (js, w') →
      Within cleanMembers depthMembers (members n) d w js w') {js : List (Text × Json)}
    (read : (members (n + 1) d).run w = some (js, w')) :
    Within cleanMembers depthMembers (members (n + 1)) d w js w' := by
  unfold members at read
  obtain ⟨key, m₁, named, read⟩ := run_bind_eq_some.mp read
  obtain ⟨_, m₂, colon, read⟩ := run_bind_eq_some.mp read
  obtain ⟨j, m, first, read⟩ := run_bind_eq_some.mp read
  obtain ⟨b, m', second, read⟩ := run_bind_eq_some.mp read
  have item := ihValue first
  split at read
  next closed =>
    obtain ⟨_, m'', third, last⟩ := run_bind_eq_some.mp read
    obtain ⟨rfl, -⟩ := run_pure_eq_some.mp last
    refine ⟨?_, ?_, fun more enough => ?_⟩
    · rw [cleanMembers, item.clean, cleanMembers]
      rfl
    · simpa [depthMembers] using item.depth
    · unfold members
      rw [run_of_eq_some named, run_of_eq_some colon, run_of_eq_some (item.deeper more enough),
        run_of_eq_some second, if_pos closed, read]
  next other =>
  split at read
  next comma =>
    obtain ⟨_, m'', third, last⟩ := run_bind_eq_some.mp read
    obtain ⟨rest, m₃, fourth, last⟩ := run_bind_eq_some.mp last
    obtain ⟨rfl, rfl⟩ := run_pure_eq_some.mp last
    have others := ihMembers fourth
    refine ⟨?_, ?_, fun more enough => ?_⟩
    · rw [cleanMembers, item.clean, others.clean]
      rfl
    · rw [depthMembers]
      exact Nat.max_le.mpr ⟨item.depth, others.depth⟩
    · unfold members
      rw [run_of_eq_some named, run_of_eq_some colon, run_of_eq_some (item.deeper more enough),
        run_of_eq_some second, if_neg other, if_pos comma, run_of_eq_some third,
        run_of_eq_some (others.deeper more enough)]
      rfl
  next => cases read

/-- The three readers at once, by induction on the steps. -/
theorem within_all (n : Nat) :
    (∀ {d w j w'}, (value n d).run w = some (j, w') → Within clean depth (value n) d w j w') ∧
    (∀ {d w js w'}, (items n d).run w = some (js, w') →
      Within cleanItems depthItems (items n) d w js w') ∧
    ∀ {d w js w'}, (members n d).run w = some (js, w') →
      Within cleanMembers depthMembers (members n) d w js w' := by
  induction n with
  | zero => exact ⟨nofun, nofun, nofun⟩
  | succ n ih =>
    obtain ⟨ihValue, ihItems, ihMembers⟩ := ih
    exact ⟨within_value ihItems ihMembers, within_items ihValue ihItems, within_members ihValue ihMembers⟩

end Within

/-- A value read from a text has numbers that denote reals and nests no deeper than the reader goes. -/
theorem read?_within {t : Text} {j : Json} (read : read? t = some j) :
    j.clean (fun _ => true) ∧ j.depth ≤ maxDepth := by
  obtain ⟨⟨j, w⟩, run, rfl⟩ := Option.map_eq_some_iff.mp read
  unfold first at run
  obtain ⟨b, m, -, run⟩ := run_bind_eq_some.mp run
  have inner : ∃ m', (value (stepBound t) maxDepth).run m' = some (j, w) := by
    split at run
    next =>
      obtain ⟨_, m', -, run⟩ := run_bind_eq_some.mp run
      exact ⟨m', run⟩
    next => exact ⟨m, run⟩
  obtain ⟨m', inner⟩ := inner
  have within := (within_all _).1 inner
  exact ⟨within.clean, within.depth⟩

end CellScript.Json
