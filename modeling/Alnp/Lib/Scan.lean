import Alnp.Lib.Service

/-!
# Servers that scan their connections

A server has its connections in a table behind its listener.  At the top of its loop it accepts a
connection, or it finds out which of those it has are ready and begins to scan the table; in each
turn it receives from a connection that was found ready, or goes on.  Some that were found may be
passed over.

`View` is what matters of such a server, and `Move` what it may do.  A machine whose steps are such
moves, and which can go on where the server could unless it is dead, serves its clients
(`Scans.implements`).
-/

namespace Alnp.Service

structure View where
  /-- the listener and the connections -/
  table : List Int
  /-- In a scan: its place, and the connections ahead that were found ready. -/
  scan : Option (Nat × List Int)

variable {α : Type} {size cap most : Nat} {resets : Bool} {listener : Int} {v v' : View}
  {net net' : Net α} {inputs : List (List α)}

/-- What the server and its clients do. -/
inductive Move (size cap most : Nat) (resets : Bool) (listener : Int) :
    View → Net α → View → Net α → Prop
  | client (v : View) (net net' : Net α) :
      Net.Env resets net net' → Move size cap most resets listener v net v net'
  | accept (v : View) (net : Net α) (i : Nat) (c : Client α) (rest : List Nat) (fd : Int) :
      v.scan = none → net.backlog = i :: rest → net.clients[i]? = some c → fd ∉ v.table →
      v.table.length ≤ cap →
      Move size cap most resets listener v net
        { v with table := v.table ++ [fd] } (net.take i c (.opened fd))
  | refuse (v : View) (net : Net α) (i : Nat) (c : Client α) (rest : List Nat) :
      v.scan = none → net.backlog = i :: rest → net.clients[i]? = some c → cap < v.table.length →
      Move size cap most resets listener v net v (net.take i c .refused)
  /-- The scan begins, with all that are ready ahead. -/
  | start (v : View) (net : Net α) (ahead : List Int) :
      v.scan = none → (∃ fd, net.ready fd = true) →
      (∀ fd, fd ∈ ahead ↔ fd ∈ v.table ∧ fd ≠ listener ∧ net.ready fd = true) →
      Move size cap most resets listener v net { v with scan := some (1, ahead) } net
  | pass (v : View) (net : Net α) (k : Nat) (ahead : List Int) :
      v.scan = some (k, ahead) → k + 1 < most →
      Move size cap most resets listener v net { v with scan := some (k + 1, ahead) } net
  | finish (v : View) (net : Net α) (k : Nat) :
      v.scan = some (k, []) →
      Move size cap most resets listener v net { v with scan := none } net
  /-- A connection at its end is removed from the table, whatever becomes of its order. -/
  | receive (v : View) (net net' : Net α) (k k' : Nat) (ahead ahead' table' : List Int)
      (fd ret : Int) :
      v.scan = some (k, ahead) → Net.Receive size fd ret net net' → k' < most →
      (∀ other ∈ ahead', other ∈ ahead ∧ other ≠ fd) →
      (if ret = 0 then (fd :: table').Perm v.table else table' = v.table) →
      Move size cap most resets listener v net ⟨table', some (k', ahead')⟩ net'

/-! ## What the server keeps -/

structure Attends (resets : Bool) (cap most : Nat) (listener : Int) (inputs : List (List α))
    (v : View) (net : Net α) : Prop where
  fits : Fits resets cap inputs net
  table : v.table.Perm (listener :: net.fds)
  within : ∀ k ahead, v.scan = some (k, ahead) → k < most
  ready : ∀ k ahead, v.scan = some (k, ahead) → ∀ fd ∈ ahead, net.ready fd = true

/-- How far it is to the next `accept` or `recv`: a scan that has none ahead has had one. -/
def View.rank (most : Nat) (v : View) : Nat :=
  match v.scan with
  | none => most
  | some (k, []) => 2 * most - k
  | some (k, _ :: _) => most - k

theorem Attends.length_table (attends : Attends resets cap most listener inputs v net) :
    v.table.length = net.fds.length + 1 :=
  attends.table.length_eq

/-- A connection that is ready is in the table. -/
theorem Attends.mem_table {fd : Int} (attends : Attends resets cap most listener inputs v net)
    (distinct : v.table.Nodup) (ready : net.ready fd = true) : fd ∈ v.table ∧ fd ≠ listener := by
  obtain ⟨c, member, opened, -⟩ := ready_iff.mp ready
  have among : fd ∈ net.fds := mem_fds.mpr ⟨c, member, opened⟩
  refine ⟨attends.table.mem_iff.mpr (List.mem_cons_of_mem _ among), ?_⟩
  rintro rfl
  exact (List.nodup_cons.mp (attends.table.nodup_iff.mp distinct)).1 among

theorem Attends.matched (attends : Attends resets cap most listener inputs v net)
    (distinct : v.table.Nodup) (room : 1 < most)
    (move : Move size cap most resets listener v net v' net') :
    Step size cap resets net net' ∨ net' = net ∧ v'.rank most < v.rank most := by
  have length := attends.length_table
  cases move with
  | client net' env => exact .inl (.env net net' env)
  | accept i c rest fd top front here new less =>
      have absent : fd ∉ net.fds := fun among =>
        new (attends.table.mem_iff.mpr (List.mem_cons_of_mem _ among))
      exact .inl (.accept net i c rest fd front here absent (by omega))
  | refuse i c rest top front here full =>
      exact .inl (.refuse net i c rest front here (by omega))
  | start ahead top some found =>
      right
      obtain ⟨fd, ready⟩ := some
      obtain ⟨member, other⟩ := attends.mem_table distinct ready
      cases ahead with
      | nil => cases (found fd).mpr ⟨member, other, ready⟩
      | cons first ahead =>
          refine ⟨rfl, ?_⟩
          simp only [View.rank, top]
          omega
  | pass k ahead at' less =>
      refine .inr ⟨rfl, ?_⟩
      cases ahead with
      | nil =>
          simp only [View.rank, at']
          omega
      | cons first ahead =>
          simp only [View.rank, at']
          omega
  | finish k at' =>
      have within := attends.within k [] at'
      refine .inr ⟨rfl, ?_⟩
      simp only [View.rank, at']
      omega
  | receive net' k k' ahead ahead' table' fd ret at' receive =>
      exact .inl (.receive net net' fd ret receive)

theorem Attends.move (attends : Attends resets cap most listener inputs v net)
    (distinct : v.table.Nodup) (room : 1 < most)
    (move : Move size cap most resets listener v net v' net') :
    Attends resets cap most listener inputs v' net' := by
  have fits : Fits resets cap inputs net' := by
    rcases attends.matched distinct room move with served | ⟨same, -⟩
    · exact attends.fits.step served
    · exact same ▸ attends.fits
  cases move with
  | client net' env =>
      exact ⟨fits, (fds_env env).symm ▸ attends.table, attends.within,
        fun k ahead at' fd member => ready_env env (attends.ready k ahead at' fd member)⟩
  | accept i c rest fd top front here new less =>
      have waits := attends.fits.place_eq front here
      refine ⟨fits, ?_, fun k ahead at' => ?_, fun k ahead at' => ?_⟩
      · exact (List.perm_append_singleton _ _).trans <| (attends.table.cons fd).trans <|
          (List.Perm.swap _ _ _).trans ((fds_take here waits).symm.cons _)
      · cases top.symm.trans at'
      · cases top.symm.trans at'
  | refuse i c rest top front here full =>
      have waits := attends.fits.place_eq front here
      have same : (net.take i c .refused).fds = net.fds := fds_take_of_ne here waits nofun
      refine ⟨fits, same.symm ▸ attends.table, attends.within, fun k ahead at' => ?_⟩
      cases top.symm.trans at'
  | start ahead top some found =>
      refine ⟨fits, attends.table, fun k ahead' at' => ?_, fun k ahead' at' fd member => ?_⟩
      · cases at'
        exact room
      · cases at'
        exact ((found fd).mp member).2.2
  | pass k ahead at' less =>
      refine ⟨fits, attends.table, fun k' ahead' at'' => ?_, fun k' ahead' at'' => ?_⟩
      · cases at''
        exact less
      · cases at''
        exact attends.ready k ahead at'
  | finish k at' => exact ⟨fits, attends.table, nofun, nofun⟩
  | receive net' k k' ahead ahead' table' fd ret at' receive less fewer table =>
      refine ⟨fits, ?_, fun k'' ahead'' at'' => ?_, fun k'' ahead'' at'' other member => ?_⟩
      · rcases fds_receive receive with ⟨rfl, perm⟩ | ⟨goes, same⟩
        · rw [if_pos rfl] at table
          refine List.Perm.cons_inv (a := fd) ?_
          exact table.trans (attends.table.trans ((perm.symm.cons _).trans (List.Perm.swap _ _ _)))
        · rw [if_neg goes] at table
          rw [table, same]
          exact attends.table
      · cases at''
        exact less
      · cases at''
        obtain ⟨before, ne⟩ := fewer other member
        exact ready_receive receive ne (attends.ready k ahead at' other before)

/-! ## Machines of this kind -/

/-- The machine does what such a server and its clients may do, and unless it is dead it can go on
wherever there is something for it to do. -/
structure Scans {σ : Type} (M : Machine σ) (dead : σ → Prop) (view : σ → View) (net : σ → Net α)
    (size cap most : Nat) (resets : Bool) (listener : Int) (inputs : List (List α)) : Prop where
  room : 1 < most
  init : ∀ s, M.init s →
    view s = ⟨[listener], none⟩ ∧ net s = ⟨inputs.map Client.start, []⟩
  distinct : ∀ s, M.Reachable s → (view s).table.Nodup
  move : ∀ s t, M.Reachable s → M.step s t →
    Move size cap most resets listener (view s) (net s) (view t) (net t)
  client : ∀ s net', ¬ dead s → Net.Env resets (net s) net' → ∃ t, M.step s t
  accepts : ∀ s i c rest, M.Reachable s → ¬ dead s → (view s).scan = none →
    (net s).backlog = i :: rest → (net s).clients[i]? = some c → ∃ t, M.step s t
  starts : ∀ s fd, M.Reachable s → ¬ dead s → (view s).scan = none → (net s).backlog = [] →
    (net s).ready fd = true → ∃ t, M.step s t
  turns : ∀ s k ahead, M.Reachable s → ¬ dead s → (view s).scan = some (k, ahead) →
    (∀ fd ∈ ahead, (net s).ready fd = true) → ∃ t, M.step s t

variable {σ : Type} {M : Machine σ} {dead : σ → Prop} {view : σ → View} {between : σ → Net α}
  {s : σ}

theorem Scans.attends (scans : Scans M dead view between size cap most resets listener inputs)
    (reached : M.Reachable s) : Attends resets cap most listener inputs (view s) (between s) := by
  refine reached.invariant
    (P := fun s => Attends resets cap most listener inputs (view s) (between s)) ?_ ?_
  · intro s start
    obtain ⟨atStart, clients⟩ := scans.init s start
    rw [atStart, clients]
    refine ⟨fits_start inputs, ?_, nofun, nofun⟩
    rw [fds_start]
  · exact fun s t before attends step =>
      attends.move (scans.distinct s before) scans.room (scans.move s t before step)

/-- The server does not stand still as long as there is something to accept or to receive. -/
theorem Scans.blocked (scans : Scans M dead view between size cap most resets listener inputs)
    (reached : M.Reachable s) (alive : ¬ dead s) (stuck : M.Stuck s) :
    (view s).scan = none ∧ (between s).backlog = [] ∧ ∀ fd, (between s).ready fd = false := by
  have attends := scans.attends reached
  have top : (view s).scan = none := by
    cases at' : (view s).scan with
    | none => rfl
    | some scan =>
        obtain ⟨t, step⟩ := scans.turns s scan.1 scan.2 reached alive at' (attends.ready _ _ at')
        exact absurd step (stuck t)
  have empty : (between s).backlog = [] := by
    cases front : (between s).backlog with
    | nil => rfl
    | cons i rest =>
        obtain ⟨c, here, -⟩ := (attends.fits.waits i).mp (front ▸ List.mem_cons_self)
        obtain ⟨t, step⟩ := scans.accepts s i c rest reached alive top front here
        exact absurd step (stuck t)
  refine ⟨top, empty, fun fd => Bool.eq_false_iff.mpr fun ready => ?_⟩
  obtain ⟨t, step⟩ := scans.starts s fd reached alive top empty ready
  exact stuck t step

theorem Scans.implements (scans : Scans M dead view between size cap most resets listener inputs) :
    Implements M dead between (fun s => (view s).rank most) size cap resets inputs where
  init s start := (scans.init s start).2
  step s t reached step := by
    have move := scans.move s t reached step
    exact (scans.attends reached).matched (scans.distinct s reached) scans.room move
  bounded := by
    refine ⟨2 * most, fun s _ => ?_⟩
    dsimp only [View.rank]
    split <;> omega
  client := scans.client
  blocked s reached alive stuck := (scans.blocked reached alive stuck).2

/-- **Scanning servers.**  Every run ends, and unless it is dead with the server at the top of its
loop, only its listener in the table, and every client served. -/
theorem Scans.terminates (scans : Scans M dead view between size cap most resets listener inputs) :
    M.Terminates fun s => ¬ dead s →
      (view s).scan = none ∧ (view s).table = [listener] ∧ Served cap inputs (between s) := by
  have terminates := scans.implements.terminates
  refine ⟨terminates.finite, fun s reached stuck alive => ?_⟩
  have served := (terminates.ends s reached stuck alive).2
  refine ⟨(scans.blocked reached alive stuck).1, ?_, served⟩
  have table := (scans.attends reached).table
  rw [served.fds] at table
  exact List.perm_singleton.mp table

end Alnp.Service
