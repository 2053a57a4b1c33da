import Bindery.Node.Session
import Mathlib.Data.List.Infix

/-!
# The shared session of a client

A client has one place for a shared session: entering puts a new session there, and exiting clears
the place, however often the client has been entered before. So a shared session is open just when
the last turn of the client was to be entered. While no block is left inside another this is the
same as a block being open; the first exit from inside a block closes the session of the outer one.
-/

namespace Bindery.Node

namespace Use

def isEnter : Use → Bool
  | .enter => true
  | _ => false

def isExit : Use → Bool
  | .exit => true
  | _ => false

end Use

def entered (uses : List Use) : ℕ := uses.countP Use.isEnter

def exited (uses : List Use) : ℕ := uses.countP Use.isExit

def InBlock (uses : List Use) : Prop := exited uses < entered uses

/-- At no moment has a client been exited more often than entered. -/
def WellNested (uses : List Use) : Prop :=
  ∀ before, before <+: uses → exited before ≤ entered before

instance : DecidablePred WellNested := fun uses =>
  decidable_of_iff (∀ before ∈ uses.inits, exited before ≤ entered before) <| by
    simp only [WellNested, List.mem_inits]

def lastTurn? (uses : List Use) : Option Use := uses.reverse.find? fun u => u.isEnter || u.isExit

/-- Along some uses of a client a shared session is open just while a block is, so that each request
made in a block goes through it. -/
structure KeepsSession (levels : ℕ) (n : Rest) (uses : List Use) : Prop where
  session_iff : ∀ before, before <+: uses → ((n.run levels before).1.session ↔ InBlock before)
  shared : ∀ before r o, before ++ [.call r o] <+: uses → InBlock before →
    ∃ e, ((n.run levels before).1.use levels (.call r o)).2 = some e ∧ e.shared

theorem entered_append (before rest : List Use) :
    entered (before ++ rest) = entered before + entered rest := List.countP_append

theorem exited_append (before rest : List Use) :
    exited (before ++ rest) = exited before + exited rest := List.countP_append

namespace Rest

variable {levels : ℕ}

theorem run_append (n : Rest) (before rest : List Use) :
    (n.run levels (before ++ rest)).1 = ((n.run levels before).1.run levels rest).1 := by
  induction before generalizing n with
  | nil => rfl
  | cons u before ih => exact ih (n.use levels u).1

theorem run_concat (n : Rest) (before : List Use) (u : Use) :
    (n.run levels (before ++ [u])).1 = ((n.run levels before).1.use levels u).1 :=
  run_append n before [u]

/-- Only the last turn counts. -/
theorem session_run (n : Rest) (uses : List Use) :
    (n.run levels uses).1.session =
      match lastTurn? uses with
      | some u => u.isEnter
      | none => n.session := by
  induction uses using List.reverseRecOn with
  | nil => rfl
  | append_singleton before u ih =>
    rw [run_concat, lastTurn?, List.reverse_concat]
    cases u with
    | enter => rfl
    | exit => rfl
    | call r o => exact ih

theorem session_run_make (url env : Option String) (uses : List Use) :
    ((Rest.make url env).run levels uses).1.session ↔ lastTurn? uses = some .enter := by
  rw [session_run]
  cases lastTurn? uses with
  | none => simp [Rest.make]
  | some u => cases u <;> simp [Use.isEnter]

/-- A session that is open just while a block is has been closed by each exit, so no block was left
open then. -/
theorem closes_of_keepsSession {n : Rest} {uses before : List Use} (hnested : WellNested uses)
    (h : KeepsSession levels n uses) (hexit : before ++ [.exit] <+: uses) :
    entered before = exited before + 1 := by
  have hclosed : ¬ InBlock (before ++ [.exit]) := by
    rw [← h.session_iff _ hexit, run_concat]
    exact Bool.false_ne_true
  have hcount := hnested _ hexit
  rw [InBlock, entered_append, exited_append] at hclosed
  rw [entered_append, exited_append] at hcount
  have henters : entered [.exit] = 0 := rfl
  have hexits : exited [.exit] = 1 := rfl
  omega

theorem session_iff_inBlock (levels : ℕ) (url env : Option String) {uses : List Use}
    (hnested : WellNested uses)
    (hexits : ∀ before, before ++ [.exit] <+: uses → entered before = exited before + 1) :
    ∀ before, before <+: uses →
      (((Rest.make url env).run levels before).1.session ↔ InBlock before) := by
  intro before
  induction before using List.reverseRecOn with
  | nil => exact fun _ => iff_of_false Bool.false_ne_true (Nat.lt_irrefl 0)
  | append_singleton before u ih =>
    intro hbefore
    have hshorter := (List.prefix_append before [u]).trans hbefore
    rw [run_concat]
    cases u with
    | enter =>
      refine iff_of_true rfl ?_
      rw [InBlock, entered_append, exited_append]
      exact Nat.lt_succ_of_le (hnested before hshorter)
    | exit =>
      refine iff_of_false Bool.false_ne_true ?_
      rw [InBlock, entered_append, exited_append, hexits before hbefore]
      exact Nat.lt_irrefl _
    | call r o =>
      rw [InBlock, entered_append, exited_append]
      exact ih hshorter

/-- A new client keeps its session just when it is exited only from blocks that are in no other. At
any place it has a shared session just when its last turn was to be entered, and that is the session
that a request goes through. -/
theorem keepsSession_iff (url env : Option String) {uses : List Use} (hnested : WellNested uses) :
    (KeepsSession levels (Rest.make url env) uses ↔
        ∀ before, before ++ [.exit] <+: uses → entered before = exited before + 1) ∧
      (∀ before, before <+: uses →
        (((Rest.make url env).run levels before).1.session ↔ lastTurn? before = some .enter)) ∧
      ∀ before r o, before ++ [.call r o] <+: uses →
        ∃ e, (((Rest.make url env).run levels before).1.use levels (.call r o)).2 = some e ∧
          (e.shared ↔ lastTurn? before = some .enter) := by
  refine ⟨⟨fun h before => closes_of_keepsSession hnested h, fun hexits => ?_⟩,
    fun before _ => session_run_make url env before,
    fun before r o _ => ⟨_, rfl, session_run_make url env before⟩⟩
  have hsession := session_iff_inBlock levels url env hnested hexits
  refine ⟨hsession, fun before r o hcall hblock => ⟨_, rfl, ?_⟩⟩
  exact (hsession before ((List.prefix_append before _).trans hcall)).mpr hblock

/-- A client may be entered again, and entered twice, as long as it is not exited in between. -/
theorem keepsSession_reentered :
    let failing := Use.call (.contract "ab12") (.failure "ConnectTimeout" "")
    let uses := [.enter, failing, .exit, failing, .enter, .enter, failing]
    WellNested uses ∧ KeepsSession 960 (Rest.make none none) uses := by
  intro failing uses
  have hnested : WellNested uses := by decide
  refine ⟨hnested, (keepsSession_iff none none hnested).1.mpr fun before hexit => ?_⟩
  have hall : ∀ p ∈ uses.inits, p.getLast?.any Use.isExit →
      entered p.dropLast = exited p.dropLast + 1 := by decide
  have hlast := hall _ ((List.mem_inits _ _).mpr hexit)
  rw [List.dropLast_concat, List.getLast?_concat] at hlast
  exact hlast rfl

/-- The first exit closes the session, though the outer block is still open, and a request made
there goes through a session of its own. -/
theorem not_keepsSession_nested :
    let n := Rest.make (some "http://node.test:20334") none
    let before := [Use.enter, .enter, .exit]
    let uses := before ++ [.call (.contractJson "ab12") (.response 200 [0x7b, 0x7d])]
    WellNested uses ∧ InBlock before ∧ (n.run 960 before).1.session = false ∧
      ¬ KeepsSession 960 n uses := by
  intro n before uses
  have hblock : InBlock before := by
    unfold InBlock
    decide
  refine ⟨by decide, hblock, rfl, fun h => ?_⟩
  obtain ⟨e, he, hshared⟩ := h.shared before _ _ List.prefix_rfl hblock
  obtain rfl := Option.some.inj he
  cases hshared

end Rest

end Bindery.Node
