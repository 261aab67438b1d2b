import ReviewDesk.Schema.Migration

/-!
# Where migrations stand

Whatever is asked of the migrations, they stand at a place in their list: those before it are
applied, in their order, and those behind it are pending.  The tables are the ones that the
applied ones have made, as they are declared and with their indexes, and nothing else is there.

The reason is one step in either direction.  Behind its predecessors a migration finds the
tables that its own refers to and not yet its own, so it makes it; and before its successors
nothing refers to its table, so it can drop it, and the indexes go with it.  Every command is a
walk of such steps, so it succeeds, and where it ends depends only on where it began.

* `applyTo_upTo`, `undoOn_upTo` — one step up or down;
* `run_upTo` — where a command ends;
* `migrations_stand_at_a_place` — every sequence of commands.
-/

namespace ReviewDesk

namespace Migration

/-- The tables of migrations, as they are declared. -/
def layouts (made : List Migration) : Schema := made.map fun m => Layout.ofTable m.table

/-- The first `k` migrations are applied. -/
def Progress.upTo (k : Nat) : Progress := ⟨all.take k, layouts (all.take k)⟩

/-! ## Single steps -/

/-- The next migration can be applied. -/
theorem applyTo_upTo {k : Nat} {m : Migration} (h : all[k]? = some m) :
    applyTo m (.upTo k) = some (.upTo (k + 1)) := by
  match k with
  | 0 | 1 | 2 | 3 => cases h; decide
  | k + 4 => cases h

/-- The last migration can be rolled back. -/
theorem undoOn_upTo {k : Nat} {m : Migration} (h : all[k]? = some m) :
    undoOn m (.upTo (k + 1)) = some (.upTo k) := by
  match k with
  | 0 | 1 | 2 | 3 => cases h; decide
  | k + 4 => cases h

theorem pending_upTo {k : Nat} (hk : k ≤ all.length) :
    (Progress.upTo k).pending = all.drop k := by
  have hplaces : ∀ k < 5, (Progress.upTo k).pending = all.drop k := by decide
  exact hplaces k (Nat.lt_succ_of_le hk)

/-- Behind the last migration nothing changes. -/
theorem upTo_of_le {k : Nat} (hk : all.length ≤ k) : Progress.upTo k = .upTo all.length := by
  rw [Progress.upTo, Progress.upTo, List.take_of_length_le hk, List.take_length]

/-! ## Walks -/

/-- Applying the next `n` migrations goes `n` places up. -/
theorem runAll_applyTo (n k : Nat) :
    runAll (((all.drop k).take n).map applyTo) (.upTo k) = (true, .upTo (k + n)) := by
  induction n generalizing k with
  | zero => rfl
  | succ n ih =>
      cases hnext : all[k]? with
      | none =>
          have hk : all.length ≤ k := List.getElem?_eq_none_iff.1 hnext
          rw [List.drop_eq_nil_of_le hk, upTo_of_le hk, upTo_of_le (Nat.le_add_right_of_le hk)]
          rfl
      | some m =>
          obtain ⟨hk, rfl⟩ := List.getElem?_eq_some_iff.1 hnext
          rw [List.drop_eq_getElem_cons hk, List.take_succ_cons, List.map_cons, runAll,
            applyTo_upTo hnext]
          dsimp only
          rw [ih (k + 1), Nat.add_right_comm, Nat.add_assoc]

/-- Rolling the last `n` migrations back goes `n` places down. -/
theorem runAll_undoOn (n : Nat) {k : Nat} (hk : k ≤ all.length) :
    runAll (((all.take k).reverse.take n).map undoOn) (.upTo k) = (true, .upTo (k - n)) := by
  induction n generalizing k with
  | zero => rfl
  | succ n ih =>
      cases k with
      | zero =>
          rw [Nat.zero_sub]
          rfl
      | succ k =>
          have hlast : all[k]? = some all[k] := List.getElem?_eq_getElem hk
          have hmade : (all.take (k + 1)).reverse = all[k] :: (all.take k).reverse := by
            rw [List.take_succ_eq_append_getElem hk, List.reverse_append, List.reverse_singleton,
              List.singleton_append]
          rw [hmade, List.take_succ_cons, List.map_cons, runAll, undoOn_upTo hlast]
          dsimp only
          rw [ih (Nat.le_of_succ_le hk), Nat.add_sub_add_right]

/-- A list of migrations that is no longer than all of them is cut off where the count says. -/
theorem first_eq_take {l : List Migration} (hl : l.length ≤ all.length) (count : Option Nat) :
    first count l = l.take (count.getD all.length) := by
  cases count with
  | none => exact (List.take_of_length_le hl).symm
  | some n => rfl

theorem up_upTo (count : Option Nat) {k : Nat} (hk : k ≤ all.length) :
    up count (.upTo k) = (true, .upTo (k + count.getD all.length)) := by
  rw [up, pending_upTo hk, first_eq_take, runAll_applyTo]
  rw [List.length_drop]
  exact Nat.sub_le _ k

theorem down_upTo (count : Option Nat) {k : Nat} (hk : k ≤ all.length) :
    down count (.upTo k) = (true, .upTo (k - count.getD all.length)) := by
  have hlength : (all.take k).reverse.length ≤ all.length := by
    rw [List.length_reverse]
    exact List.length_take_le' _ _
  rw [down, Progress.upTo, first_eq_take hlength]
  exact runAll_undoOn _ hk

/-- The place at which a command ends. -/
def Command.goal : Command → Nat → Nat
  | .up count, k => min (k + count.getD all.length) all.length
  | .down count, k => k - count.getD all.length
  | .fresh, _ | .refresh, _ => all.length
  | .reset, _ => 0

theorem goal_le (command : Command) {k : Nat} (hk : k ≤ all.length) :
    command.goal k ≤ all.length := by
  cases command with
  | up count => exact Nat.min_le_right _ _
  | down count => exact Nat.le_trans (Nat.sub_le _ _) hk
  | fresh | refresh => exact Nat.le_refl _
  | reset => exact Nat.zero_le _

/-- Every command succeeds and ends at its place. -/
theorem run_upTo (command : Command) {k : Nat} (hk : k ≤ all.length) :
    command.run (.upTo k) = (true, .upTo (command.goal k)) := by
  have hreset : down none (.upTo k) = (true, .upTo 0) := by
    rw [down_upTo none hk, Option.getD_none, Nat.sub_eq_zero_of_le hk]
  have hfresh : up none (.upTo 0) = (true, .upTo all.length) := by
    rw [up_upTo none (Nat.zero_le _), Option.getD_none, Nat.zero_add]
  cases command with
  | up count =>
      rw [Command.run, up_upTo count hk, Command.goal]
      rcases Nat.le_total (k + count.getD all.length) all.length with h | h
      · rw [Nat.min_eq_left h]
      · rw [Nat.min_eq_right h, upTo_of_le h]
  | down count => exact down_upTo count hk
  | fresh => exact hfresh
  | refresh =>
      rw [Command.run, hreset]
      exact hfresh
  | reset => exact hreset

/-! ## Sequences of commands -/

/-- Where migrations stand after commands. -/
def Progress.after (p : Progress) (commands : List Command) : Progress :=
  commands.foldl (fun q command => (command.run q).2) p

/-- After any commands, migrations stand at a place in their list. -/
theorem exists_after_eq_upTo (commands : List Command) :
    ∃ k ≤ all.length, Progress.blank.after commands = .upTo k := by
  have hwalk : ∀ k ≤ all.length, ∃ j ≤ all.length, (Progress.upTo k).after commands = .upTo j := by
    induction commands with
    | nil => exact fun k hk => ⟨k, hk, rfl⟩
    | cons command later ih =>
        intro k hk
        obtain ⟨j, hj, hlater⟩ := ih _ (goal_le command hk)
        refine ⟨j, hj, ?_⟩
        rw [Progress.after, List.foldl_cons, run_upTo command hk]
        exact hlater
  exact hwalk 0 (Nat.zero_le _)

/-- **Migrations stand at a place.**  After any commands on an empty storage, every further command
succeeds.  The applied migrations are the first ones of their list and the pending ones the others;
what exists is as those applied declare it, and it is what they make of an empty storage.  So
commands that lead to the same applied migrations lead to the same tables.  Migrations that are
applied and rolled back leave nothing behind, and whoever applies all has all tables. -/
theorem migrations_stand_at_a_place (commands : List Command) :
    let p := Progress.blank.after commands
    (∀ command : Command, (command.run p).1 = true) ∧
    (∃ made later, made ++ later = all ∧ p.applied = made ∧ p.pending = later ∧
      p.schema = made.map (fun m => Layout.ofTable m.table) ∧
      up (some made.length) .blank = (true, p)) ∧
    (∀ others, (Progress.blank.after others).applied = p.applied →
      Progress.blank.after others = p) ∧
    (∀ n, let q := (up (some n) p).2
      down (some (q.applied.length - p.applied.length)) q = (true, p)) ∧
    ∀ command ∈ [Command.fresh, .refresh, .up none],
      (command.run p).2 = ⟨all, Table.all.map Layout.ofTable⟩ := by
  intro p
  obtain ⟨k, hk, hp⟩ := exists_after_eq_upTo commands
  have hlength : ∀ {j}, j ≤ all.length → (Progress.upTo j).applied.length = j := fun hj =>
    List.length_take_of_le hj
  rw [show p = .upTo k from hp]
  refine ⟨fun command => ?_, ⟨all.take k, all.drop k, List.take_append_drop k all, rfl,
    pending_upTo hk, rfl, ?_⟩, fun others hsame => ?_, fun n => ?_, fun command hcommand => ?_⟩
  · rw [run_upTo command hk]
  · rw [List.length_take_of_le hk]
    have hup := up_upTo (some k) (Nat.zero_le all.length)
    rw [Option.getD_some, Nat.zero_add] at hup
    exact hup
  · obtain ⟨j, hj, hothers⟩ := exists_after_eq_upTo others
    rw [hothers] at hsame ⊢
    have hplace := congrArg List.length hsame
    rw [hlength hj, hlength hk] at hplace
    rw [hplace]
  · have hgoal := goal_le (.up (some n)) hk
    have hup : (up (some n) (.upTo k)).2 = .upTo (Command.goal (.up (some n)) k) :=
      congrArg Prod.snd (run_upTo (.up (some n)) hk)
    dsimp only
    rw [hup, hlength hgoal, hlength hk, down_upTo _ hgoal, Option.getD_some, Nat.sub_sub_self]
    exact Nat.le_min.2 ⟨Nat.le_add_right _ _, hk⟩
  · have hgoal : command.goal k = all.length := by
      simp only [List.mem_cons, List.not_mem_nil, or_false] at hcommand
      rcases hcommand with rfl | rfl | rfl
      · rfl
      · rfl
      · exact Nat.min_eq_right (Nat.le_add_left _ _)
    rw [run_upTo command hk, hgoal]
    rfl

/-- A way to the second place that is not the shortest. -/
def aDetour : List Command := [.up (some 3), .down (some 1), .refresh, .down (some 2)]

/-- It ends where the shortest way does; from there one goes up and back, or up to the end. -/
theorem aDetour_ends_at_users :
    let p := Progress.blank.after aDetour
    Progress.blank.after [.up (some 2)] = p ∧ p.applied.map (·.table) = [.teams, .users] ∧
      down (some 1) (up (some 1) p).2 = (true, p) ∧
      (Command.run .refresh p).2 = ⟨all, Table.all.map Layout.ofTable⟩ := by
  obtain ⟨-, -, hsame, hback, hfull⟩ := migrations_stand_at_a_place aDetour
  exact ⟨hsame [.up (some 2)] (by decide), by decide, hback 1, hfull .refresh (by decide)⟩

end Migration

end ReviewDesk
