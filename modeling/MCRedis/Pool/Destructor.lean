import MCRedis.Pool.Core

/-!
# The destructor of a handle

The destructor reads the error number of the connection, files a healthy
connection in the pool and leaves a broken one to its deleter.  It returns
unless the connection has no context, or is broken and has no deleter.
-/

namespace MCRedis.Pool

open MCRedis.Client
open MCRedis.Transition

theorem dispose_eq_ok_iff {ptr : ConnPtr} : ptr.dispose = .ok () ↔ ptr.deleter = .deletes := by
  rw [ConnPtr.dispose]
  cases ptr.deleter <;> simp

namespace CConnectionRAII

/-- The handle holds no connection, or one with a context that has no error or a
deleter. -/
def disposable (handle : CConnectionRAII) : Bool :=
  match handle.connPtr with
  | none => true
  | some ptr =>
      match ptr.conn.contextPtr with
      | none => false
      | some c => c.err == 0 || ptr.deleter == .deletes

theorem disposable_of_context {ptr : ConnPtr} {c : RedisContext}
    (valid : ptr.conn.contextPtr = some c) :
    disposable ⟨some ptr⟩ = (c.err == 0 || ptr.deleter == .deletes) := by
  simp only [disposable, valid]

theorem destroy_of_noContext {ptr : ConnPtr} (invalid : ptr.conn.contextPtr = none)
    (pool : PoolMap) :
    destroy ⟨some ptr⟩ pool = .error (.undefined .nullDereference) := by
  simp only [destroy, CConnection.errorNo, CConnection.context, invalid]
  rfl

theorem destroy_of_context {ptr : ConnPtr} {c : RedisContext}
    (valid : ptr.conn.contextPtr = some c) (pool : PoolMap) :
    destroy ⟨some ptr⟩ pool =
      if c.err = 0 then .ok (pushFront pool ptr, []) else .ok (pool, [ptr]) := by
  simp only [destroy, CConnection.errorNo, CConnection.context, valid]
  rfl

/-- The destructor leaves in the same way, whatever the pool holds. -/
theorem destructor_eq (handle : CConnectionRAII) (pool : PoolMap) :
    handle.destructor = handle.destroy pool >>= fun left => left.2.forM ConnPtr.dispose := by
  rcases handle with ⟨_ | ptr⟩
  · rfl
  · rw [destructor]
    cases valid : ptr.conn.contextPtr with
    | none => rw [destroy_of_noContext valid, destroy_of_noContext valid]
    | some c =>
        rw [destroy_of_context valid, destroy_of_context valid]
        by_cases healthy : c.err = 0
        · rw [if_pos healthy, if_pos healthy]
          rfl
        · rw [if_neg healthy, if_neg healthy]
          rfl

theorem destructor_of_noContext {ptr : ConnPtr} (invalid : ptr.conn.contextPtr = none) :
    destructor ⟨some ptr⟩ = .error (.undefined .nullDereference) := by
  rw [destructor, destroy_of_noContext invalid]
  rfl

theorem destructor_of_context {ptr : ConnPtr} {c : RedisContext}
    (valid : ptr.conn.contextPtr = some c) :
    destructor ⟨some ptr⟩ = if c.err = 0 then .ok () else ptr.dispose := by
  rw [destructor, destroy_of_context valid]
  by_cases healthy : c.err = 0
  · rw [if_pos healthy, if_pos healthy]
    rfl
  · rw [if_neg healthy, if_neg healthy]
    change (ptr.dispose >>= fun _ => .ok ()) = _
    cases ptr.dispose <;> rfl

/-- The destructor returns exactly when the handle is disposable. -/
theorem destructor_eq_ok_iff {handle : CConnectionRAII} :
    handle.destructor = .ok () ↔ handle.disposable = true := by
  rcases handle with ⟨_ | ptr⟩
  · exact iff_of_true rfl rfl
  · cases valid : ptr.conn.contextPtr with
    | none => simp [destructor_of_noContext valid, disposable, valid]
    | some c =>
        rw [destructor_of_context valid, disposable_of_context valid, Bool.or_eq_true, beq_iff_eq,
          beq_iff_eq, ← dispose_eq_ok_iff]
        by_cases healthy : c.err = 0
        · rw [if_pos healthy]
          exact iff_of_true rfl (.inl healthy)
        · rw [if_neg healthy]
          exact (or_iff_right healthy).symm

/-- A destructor that does not return reads a null context, or ends the
process. -/
theorem destructor_cases (handle : CConnectionRAII) :
    handle.destructor = .ok () ∨ handle.destructor = .error (.undefined .nullDereference) ∨
      handle.destructor = .error .terminate := by
  rcases handle with ⟨_ | ptr⟩
  · exact .inl rfl
  · cases valid : ptr.conn.contextPtr with
    | none => exact .inr (.inl (destructor_of_noContext valid))
    | some c =>
        rw [destructor_of_context valid]
        by_cases healthy : c.err = 0
        · exact .inl (if_pos healthy)
        · rw [if_neg healthy, ConnPtr.dispose]
          cases ptr.deleter with
          | empty => exact .inr (.inr rfl)
          | deletes => exact .inl rfl

end CConnectionRAII

end MCRedis.Pool
