import MCRedis.Pool.Pointers

/-!
# The deprecated pool

`deprecated::CConnectionPool` keeps one flat list of idle connections.  Over
middlewares that know no slots, whose connections keep the default slot range,
the keyed pool has at most one entry, and the two pools serve every sequence of
requests alike.
-/

namespace MCRedis.Pool

open MCRedis.Client
open MCRedis.Container
open MCRedis.MiddleWare
open MCRedis.Transition

/-!
## The flat list

In `deprecated::CConnectionPool` the idle connections are a list, and a handle
holds a connection or none.  The deleters of its pointers are left out.
-/

namespace Deprecated

/-- `_getConnectionImpl` from some position of the tuple on; `getConnection()`
takes the default slot. -/
def _getConnection : List TMiddleWare → MwProgram (Option CConnection)
  | [] => pure none
  | mw :: rest => do
      let conn ← mw.getConnection 0
      match conn with
      | none => _getConnection rest
      | some conn => pure (some conn)

def get (mw : List TMiddleWare) (pool : List CConnection) :
    MwProgram (Option CConnection × List CConnection) :=
  match pool with
  | [] => do
      let conn ← _getConnection mw
      pure (conn, [])
  | front :: rest => pure (some front, rest)

/-- `~CConnectionRAII`. -/
def destroy (connPtr : Option CConnection) (pool : List CConnection) :
    Except Fault (List CConnection) :=
  match connPtr with
  | none => .ok pool
  | some conn => do
      let errorNo ← conn.errorNo
      if errorNo = 0 then .ok (conn :: pool) else .ok pool

def clear (_pool : List CConnection) : List CConnection :=
  []

end Deprecated

/-! ## Clients of a pool -/

/-- What the clients of a pool use: `π` is the pool, `η` a handle. -/
structure PoolInterface (π η : Type) where
  get : Option Bytes → π → MwProgram (η × π)
  destroy : η → π → Except Fault π
  clear : π → π
  use : (CConnection → CConnection) → η → η
  conn : η → Option CConnection

def keyedPool (mw : List TMiddleWare) : PoolInterface PoolMap CConnectionRAII where
  get key pool := CConnectionPool.get mw pool key
  destroy raii pool := (raii.destroy pool).map Prod.fst
  clear := CConnectionPool.clear
  use change raii := ⟨raii.connPtr.map fun ptr => { ptr with conn := change ptr.conn }⟩
  conn raii := raii.connPtr.map ConnPtr.conn

/-- Its only `get` takes no key. -/
def deprecatedPool (mw : List TMiddleWare) :
    PoolInterface (List CConnection) (Option CConnection) where
  get _ pool := Deprecated.get mw pool
  destroy := Deprecated.destroy
  clear := Deprecated.clear
  use := Option.map
  conn := id

/-- The requests of the clients; `use` is whatever they do to a connection they
hold, and a handle is named by its number. -/
inductive Request
  | get (key : Option Bytes)
  | use (handle : Nat) (change : CConnection → CConnection)
  | release (handle : Nat)
  | clear

/-- A pool and the handles it has given, `none` where one was released. -/
structure Clients (π η : Type) where
  pool : π
  handles : List (Option η)

/-- One request: the connection that is handed out by a get, and the state. -/
def serve {π η : Type} (pool : PoolInterface π η) :
    Request → Clients π η → MwProgram (Option CConnection × Clients π η)
  | .get key, s => do
      let (raii, after) ← pool.get key s.pool
      pure (pool.conn raii, ⟨after, s.handles ++ [some raii]⟩)
  | .use handle change, s =>
      match s.handles[handle]? with
      | some (some raii) =>
          pure (none, { s with handles := s.handles.set handle (some (pool.use change raii)) })
      | _ => pure (none, s)
  | .release handle, s =>
      match s.handles[handle]? with
      | some (some raii) => do
          let after ← Program.ofExcept (pool.destroy raii s.pool)
          pure (none, ⟨after, s.handles.set handle none⟩)
      | _ => pure (none, s)
  | .clear, s => pure (none, { s with pool := pool.clear s.pool })

/-- A request that was served: which middlewares were asked for a connection with
which answers, and what was handed out. -/
structure Served where
  request : Request
  asked : List (Nat × Option CConnection)
  handed : Option CConnection

/-- The requests to the middlewares, with the slot that they are passed. -/
def askedEvents (slotNo : Nat) (asked : List (Nat × Option CConnection)) :
    List (Event MwOp MwAns) :=
  asked.map fun entry => ⟨.foreign entry.1 slotNo, entry.2⟩

/-- A step of the clients; the pool passes the slot to the middlewares it asks. -/
def ServeStep {π η : Type} (pool : PoolInterface π η) (slotNo : Nat) (s : Clients π η)
    (served : Served) (t : Clients π η) : Prop :=
  Exec (serve pool served.request s) (askedEvents slotNo served.asked) (.ok (served.handed, t))

/-! ## Middlewares without slots -/

/-- The tuple consists of middlewares of the user's own, from the position on. -/
def ForeignFrom : Nat → List TMiddleWare → Prop
  | _, [] => True
  | index, mw :: rest =>
      mw.getConnection = (fun slotNo => Program.perform (MwOp.foreign index slotNo)) ∧
        ForeignFrom (index + 1) rest

def DefaultRange (conn : CConnection) : Prop :=
  conn.slotRange = (0, uint32Max)

/-- Both pools ask the same middleware, the deprecated one with the default slot,
and get the same connection, with the default slot range. -/
def SameAnswer (event other : Event MwOp MwAns) : Prop :=
  ∃ index answer, event = ⟨.foreign index uint32Max, answer⟩ ∧
    other = ⟨.foreign index 0, answer⟩ ∧ ∀ conn, answer = some conn → DefaultRange conn

theorem forall₂_askedEvents {asked : List (Nat × Option CConnection)}
    (default : ∀ entry ∈ asked, ∀ conn, entry.2 = some conn → DefaultRange conn) :
    List.Forall₂ SameAnswer (askedEvents uint32Max asked) (askedEvents 0 asked) := by
  induction asked with
  | nil => exact .nil
  | cons entry asked ih =>
      obtain ⟨first, others⟩ := List.forall_mem_cons.mp default
      exact .cons ⟨entry.1, entry.2, rfl, rfl, first⟩ (ih others)

theorem inStep_foreign {α β : Type} {post : α → β → Prop} {index : Nat}
    {next : Option CConnection → MwProgram α} {next' : Option CConnection → MwProgram β}
    (rest : ∀ answer, (∀ conn, answer = some conn → DefaultRange conn) →
      InStep SameAnswer post (next answer) (next' answer)) :
    InStep SameAnswer post (.request (.foreign index uint32Max) next)
      (.request (.foreign index 0) next') := by
  refine ⟨?_, ?_, ?_⟩
  · rintro answer event ⟨_, _, ⟨⟩, rfl, _⟩
    rfl
  · rintro event answer ⟨_, _, rfl, ⟨⟩, _⟩
    rfl
  · rintro answer answer' ⟨_, _, ⟨⟩, ⟨⟩, default⟩
    exact rest answer default

/-- Both pools ask the middlewares in order until one gives a connection. -/
theorem inStep_getConnection {index : Nat} {mw : List TMiddleWare}
    (foreign : ForeignFrom index mw) :
    InStep SameAnswer (fun conn other => conn = other ∧ ∀ own, conn = some own → DefaultRange own)
      (getConnection mw uint32Max) (Deprecated._getConnection mw) := by
  induction mw generalizing index with
  | nil => exact ⟨rfl, nofun⟩
  | cons first rest ih =>
      obtain ⟨firstEq, restForeign⟩ := foreign
      rw [getConnection, tupleIterator, Deprecated._getConnection, firstEq]
      apply inStep_foreign
      intro answer default
      cases answer with
      | none => exact ih restForeign
      | some conn => exact ⟨rfl, default⟩

/-! ## The simulation -/

/-- The pools have the same idle connections in the same order. -/
structure SameIdle (pool : PoolMap) (flat : List CConnection) : Prop where
  keys : ∀ entry ∈ pool.entries, entry.1 = uint32Max
  idle : (idle pool).map ConnPtr.conn = flat
  default : ∀ conn ∈ flat, DefaultRange conn

/-- A pool with one key only has its idle connections in one list. -/
theorem idle_eq_of_keys {pool : PoolMap} {key : Nat}
    (keys : ∀ entry ∈ pool.entries, entry.1 = key) :
    idle pool = (pool.find? key).getD [] := by
  rcases pool with ⟨entries, sorted⟩
  match entries with
  | [] => rfl
  | [entry] =>
      have keyEq : entry.1 = key := keys entry (List.mem_singleton_self entry)
      simp [idle, OrderedMap.find?, keyEq]
  | first :: second :: rest =>
      have less := (List.pairwise_cons.mp sorted).1 second List.mem_cons_self
      rw [keys first List.mem_cons_self, keys second (by simp)] at less
      exact absurd less (lt_irrefl key)

theorem keys_insert {pool : PoolMap} {key : Nat} (keys : ∀ entry ∈ pool.entries, entry.1 = key)
    (ptrs : List ConnPtr) : ∀ entry ∈ (pool.insert key ptrs).entries, entry.1 = key := by
  intro entry mem
  rcases OrderedMap.mem_insert_iff.mp mem with rfl | ⟨old, _⟩
  · rfl
  · exact keys entry old

theorem idle_insert {pool : PoolMap} {key : Nat} (keys : ∀ entry ∈ pool.entries, entry.1 = key)
    (ptrs : List ConnPtr) : idle (pool.insert key ptrs) = ptrs := by
  rw [idle_eq_of_keys (keys_insert keys ptrs), OrderedMap.find?_insert_self, Option.getD_some]

namespace SameIdle

variable {pool : PoolMap} {flat : List CConnection}

theorem insert (same : SameIdle pool flat) {ptrs : List ConnPtr}
    (default : ∀ ptr ∈ ptrs, DefaultRange ptr.conn) :
    SameIdle (pool.insert uint32Max ptrs) (ptrs.map ConnPtr.conn) where
  keys := keys_insert same.keys ptrs
  idle := congrArg _ (idle_insert same.keys ptrs)
  default := List.forall_mem_map.mpr default

theorem pushFront (same : SameIdle pool flat) {ptr : ConnPtr} (default : DefaultRange ptr.conn) :
    SameIdle (pushFront pool ptr) (ptr.conn :: flat) := by
  have keyEq : ptr.conn.slotRange.2 = uint32Max := congrArg Prod.snd default
  have idleEq := idle_eq_of_keys same.keys
  have allDefault : ∀ other ∈ ptr :: Pool.idle pool, DefaultRange other.conn := by
    refine List.forall_mem_cons.mpr ⟨default, ?_⟩
    intro other mem
    exact same.default _ (same.idle ▸ List.mem_map_of_mem mem)
  rw [Pool.pushFront, keyEq, ← idleEq, ← same.idle]
  exact same.insert allDefault

theorem clear (same : SameIdle pool flat) : SameIdle (CConnectionPool.clear pool) [] where
  keys := by
    intro entry mem
    obtain ⟨old, oldMem, rfl⟩ := List.mem_map.mp mem
    exact same.keys old oldMem
  idle := by
    rw [idle_clear]
    rfl
  default := fun _ mem => absurd mem List.not_mem_nil

/-- A get takes the first idle connection of both pools, or both ask. -/
theorem get {mw : List TMiddleWare} (noSlot : ∀ key, getSlot mw key = .ok uint32Max)
    (foreign : ForeignFrom 0 mw) (same : SameIdle pool flat) (key : Option Bytes) :
    InStep SameAnswer
      (fun first second => first.1.connPtr.map ConnPtr.conn = second.1 ∧
        SameIdle first.2 second.2 ∧ ∀ conn, second.1 = some conn → DefaultRange conn)
      (CConnectionPool.get mw pool key) (Deprecated.get mw flat) := by
  rw [CConnectionPool.get, noSlot, Program.ofExcept_ok, Program.bind_eq_bind,
    Program.bind_pure_left]
  have stored := idle_eq_of_keys same.keys
  cases listed : Pool.idle pool with
  | nil =>
      have emptied : flat = [] := by
        rw [← same.idle, listed]
        rfl
      have missed : hit pool uint32Max = none := by
        cases found : hit pool uint32Max with
        | none => rfl
        | some entry =>
            obtain ⟨key, front, rest⟩ := entry
            have mem : front ∈ Pool.idle pool := OrderedMap.mem_collect_of_find? (fun ptrs => ptrs)
              (find?_of_hit found) List.mem_cons_self
            rw [listed] at mem
            contradiction
      rw [get_of_missed missed, emptied, Deprecated.get]
      apply (inStep_getConnection foreign).bind
      rintro conn _ ⟨rfl, default⟩
      refine ⟨?_, ?_, default⟩
      · cases conn <;> rfl
      · exact emptied ▸ same
  | cons front rest =>
      have listEq : pool.find? uint32Max = some (front :: rest) := by
        cases found : pool.find? uint32Max with
        | none =>
            rw [listed, found] at stored
            contradiction
        | some ptrs =>
            rw [listed, found] at stored
            exact congrArg some stored.symm
      have lower : pool.lowerBound uint32Max = some (uint32Max, front :: rest) :=
        OrderedMap.lowerBound_eq_some_iff.mpr ⟨OrderedMap.find?_eq_some_iff.mp listEq, le_rfl,
          fun entry mem _ => (same.keys entry mem).ge⟩
      have flatEq : flat = front.conn :: rest.map ConnPtr.conn := by
        rw [← same.idle, listed]
        rfl
      obtain ⟨first, others⟩ := List.forall_mem_cons.mp (flatEq ▸ same.default)
      rw [CConnectionPool._get, lower, flatEq, Deprecated.get]
      refine ⟨rfl, same.insert (List.forall_mem_map.mp others), ?_⟩
      rintro _ ⟨⟩
      exact first

/-- A destroyed handle goes to the front of both pools, or is dropped. -/
theorem destroy (same : SameIdle pool flat) {raii : CConnectionRAII}
    (default : ∀ conn, raii.connPtr.map ConnPtr.conn = some conn → DefaultRange conn) :
    InStep SameAnswer SameIdle
      (Program.ofExcept ((raii.destroy pool).map Prod.fst) : MwProgram PoolMap)
      (Program.ofExcept (Deprecated.destroy (raii.connPtr.map ConnPtr.conn) flat)) := by
  rcases raii with ⟨_ | ptr⟩
  · exact same
  · simp only [CConnectionRAII.destroy, Deprecated.destroy, Option.map_some]
    cases ptr.conn.errorNo with
    | error fault => rfl
    | ok errorNo =>
        by_cases healthy : errorNo = 0
        · simpa [bind, Except.bind, healthy, Except.map] using
            same.pushFront (default ptr.conn rfl)
        · simpa [bind, Except.bind, healthy, Except.map] using same

end SameIdle

/-- The clients of both pools hold the same connections. -/
structure Alike (s : Clients PoolMap CConnectionRAII)
    (t : Clients (List CConnection) (Option CConnection)) : Prop where
  pool : SameIdle s.pool t.pool
  handles : s.handles.map (Option.map (keyedPool []).conn) = t.handles
  default : ∀ conn, some (some conn) ∈ t.handles → DefaultRange conn

/-- What the clients do to a connection leaves its slot range alone. -/
def Request.KeepsRange : Request → Prop
  | .use _ change => ∀ conn, (change conn).slotRange = conn.slotRange
  | _ => True

/-- The connections of the request keep the default slot range. -/
structure Served.Default (served : Served) : Prop where
  request : served.request.KeepsRange
  asked : ∀ entry ∈ served.asked, ∀ conn, entry.2 = some conn → DefaultRange conn

namespace Alike

variable {s : Clients PoolMap CConnectionRAII}
  {t : Clients (List CConnection) (Option CConnection)} {mw : List TMiddleWare}

theorem handle (alike : Alike s t) (handle : Nat) :
    t.handles[handle]? = s.handles[handle]?.map (Option.map (keyedPool []).conn) := by
  rw [← alike.handles, List.getElem?_map]

theorem held (alike : Alike s t) {handle : Nat} {raii : CConnectionRAII}
    (found : s.handles[handle]? = some (some raii)) :
    ∀ conn, raii.connPtr.map ConnPtr.conn = some conn → DefaultRange conn := by
  intro conn connEq
  apply alike.default conn
  apply List.mem_of_getElem?
  rw [alike.handle handle, found]
  exact congrArg (some ∘ some) connEq

/-- The pools change alike, and so does one handle. -/
theorem replace (alike : Alike s t) {pool : PoolMap} {flat : List CConnection}
    (same : SameIdle pool flat) (handle : Nat) {new : Option CConnectionRAII}
    {other : Option (Option CConnection)} (newEq : new.map (keyedPool []).conn = other)
    (default : ∀ conn, other = some (some conn) → DefaultRange conn) :
    Alike ⟨pool, s.handles.set handle new⟩ ⟨flat, t.handles.set handle other⟩ := by
  refine ⟨same, ?_, ?_⟩
  · rw [List.map_set, alike.handles, newEq]
  · intro own mem
    rcases List.mem_or_eq_of_mem_set mem with old | ownEq
    · exact alike.default own old
    · exact default own ownEq.symm

/-- One request is served alike by both pools. -/
theorem serve (noSlot : ∀ key, getSlot mw key = .ok uint32Max) (foreign : ForeignFrom 0 mw)
    (alike : Alike s t) (request : Request) (keeps : request.KeepsRange) :
    InStep SameAnswer (fun first second => first.1 = second.1 ∧ Alike first.2 second.2)
      (serve (keyedPool mw) request s) (serve (deprecatedPool mw) request t) := by
  cases request with
  | get key =>
      apply (alike.pool.get noSlot foreign key).bind
      rintro ⟨raii, after⟩ ⟨conn, flat⟩ ⟨rfl, same, default⟩
      refine ⟨rfl, same, ?_, ?_⟩
      · rw [List.map_append, alike.handles]
        rfl
      · intro own mem
        rcases List.mem_append.mp mem with old | new
        · exact alike.default own old
        · exact default own (Option.some.inj (List.mem_singleton.mp new)).symm
  | use handle change =>
      rw [Pool.serve, Pool.serve, alike.handle]
      rcases found : s.handles[handle]? with _ | _ | raii
      · exact ⟨rfl, alike⟩
      · exact ⟨rfl, alike⟩
      · have connEq : ((keyedPool mw).use change raii).connPtr.map ConnPtr.conn =
            (raii.connPtr.map ConnPtr.conn).map change := by
          rcases raii with ⟨_ | ptr⟩ <;> rfl
        refine ⟨rfl, alike.replace alike.pool handle (congrArg some connEq) ?_⟩
        intro own ownEq
        obtain ⟨conn, owned, rfl⟩ := Option.map_eq_some_iff.mp (Option.some.inj ownEq)
        exact (keeps conn).trans (alike.held found conn owned)
  | release handle =>
      rw [Pool.serve, Pool.serve, alike.handle]
      rcases found : s.handles[handle]? with _ | _ | raii
      · exact ⟨rfl, alike⟩
      · exact ⟨rfl, alike⟩
      · apply (alike.pool.destroy (alike.held found)).bind
        intro after flat same
        exact ⟨rfl, alike.replace same handle rfl nofun⟩
  | clear => exact ⟨rfl, alike.pool.clear, alike.handles, alike.default⟩

/-- What the keyed pool does, the deprecated pool does as well. -/
theorem deprecatedStep (noSlot : ∀ key, getSlot mw key = .ok uint32Max)
    (foreign : ForeignFrom 0 mw) (alike : Alike s t) {served : Served} (default : served.Default)
    {after : Clients PoolMap CConnectionRAII}
    (step : ServeStep (keyedPool mw) uint32Max s served after) :
    ∃ other, ServeStep (deprecatedPool mw) 0 t served other ∧ Alike after other := by
  obtain ⟨⟨_, other⟩, exec, rfl, next⟩ :=
    (alike.serve noSlot foreign served.request default.request).exec
      (forall₂_askedEvents default.asked) step
  exact ⟨other, exec, next⟩

theorem keyedStep (noSlot : ∀ key, getSlot mw key = .ok uint32Max)
    (foreign : ForeignFrom 0 mw) (alike : Alike s t) {served : Served} (default : served.Default)
    {after : Clients (List CConnection) (Option CConnection)}
    (step : ServeStep (deprecatedPool mw) 0 t served after) :
    ∃ other, ServeStep (keyedPool mw) uint32Max s served other ∧ Alike other after := by
  obtain ⟨⟨_, other⟩, exec, rfl, next⟩ :=
    (alike.serve noSlot foreign served.request default.request).symm.exec
      (forall₂_askedEvents default.asked).flip step
  exact ⟨other, exec, next⟩

end Alike

/-- Over middlewares that know no slots, from pools with the same idle connections
in the same order, both pools serve the same requests: they ask the same
middlewares at the same points, and hand out the same connections. -/
theorem pools_serve_alike {mw : List TMiddleWare} (noSlot : ∀ key, getSlot mw key = .ok uint32Max)
    (foreign : ForeignFrom 0 mw) {s : Clients PoolMap CConnectionRAII}
    {t : Clients (List CConnection) (Option CConnection)} (alike : Alike s t) (log : List Served)
    (default : ∀ served ∈ log, served.Default) :
    (∃ visits last, Run (ServeStep (keyedPool mw) uint32Max) s visits last ∧
        visits.map Visit.label = log) ↔
      ∃ visits last, Run (ServeStep (deprecatedPool mw) 0) t visits last ∧
        visits.map Visit.label = log := by
  constructor
  · rintro ⟨visits, last, run, rfl⟩
    obtain ⟨others, final, otherRun, labels, _⟩ := run.simulate Alike alike
      fun visit mem before alike step =>
        alike.deprecatedStep noSlot foreign (default _ (List.mem_map_of_mem mem)) step
    exact ⟨others, final, otherRun, labels⟩
  · rintro ⟨visits, last, run, rfl⟩
    obtain ⟨others, final, otherRun, labels, _⟩ := run.simulate (fun flat keyed => Alike keyed flat)
      alike fun visit mem before alike step =>
        alike.keyedStep noSlot foreign (default _ (List.mem_map_of_mem mem)) step
    exact ⟨others, final, otherRun, labels⟩

/-- A middleware of the user's own that knows no slots. -/
def foreignMiddleWare (index : Nat) : TMiddleWare where
  create _ := pure []
  getConnection slotNo := Program.perform (MwOp.foreign index slotNo)
  getSlot _ := .ok uint32Max

def twoForeign : List TMiddleWare :=
  [foreignMiddleWare 0, foreignMiddleWare 1]

/-- The second middleware gives a connection; it is released and handed out
again. -/
def reuseLog : List Served :=
  [⟨.get none, [(0, none), (1, some (acceptedConnection 0))], some (acceptedConnection 0)⟩,
    ⟨.release 0, [], none⟩,
    ⟨.get (some [0x61]), [], some (acceptedConnection 0)⟩]

theorem run_reuseLog : ∃ visits last,
    Run (ServeStep (keyedPool twoForeign) uint32Max) ⟨.empty, []⟩ visits last ∧
      visits.map Visit.label = reuseLog := by
  have first : ServeStep (keyedPool twoForeign) uint32Max ⟨.empty, []⟩
      ⟨.get none, [(0, none), (1, some (acceptedConnection 0))], some (acceptedConnection 0)⟩
      ⟨.empty, [some ⟨some ⟨acceptedConnection 0, .empty⟩⟩]⟩ :=
    .request _ _ (.request _ _ (.pure _))
  have second : ServeStep (keyedPool twoForeign) uint32Max
      ⟨.empty, [some ⟨some ⟨acceptedConnection 0, .empty⟩⟩]⟩ ⟨.release 0, [], none⟩
      ⟨pushFront .empty ⟨acceptedConnection 0, .empty⟩, [none]⟩ := .pure _
  have third : ServeStep (keyedPool twoForeign) uint32Max
      ⟨pushFront .empty ⟨acceptedConnection 0, .empty⟩, [none]⟩
      ⟨.get (some [0x61]), [], some (acceptedConnection 0)⟩ _ := .pure _
  exact ⟨_, _, .cons first (.cons second (.single third)), rfl⟩

/-- The deprecated pool does the same. -/
theorem pools_serve_alike_reuse : ∃ visits last,
    Run (ServeStep (deprecatedPool twoForeign) 0) ⟨[], []⟩ visits last ∧
      visits.map Visit.label = reuseLog := by
  have noSlot : ∀ key, getSlot twoForeign key = .ok uint32Max :=
    getSlot_of_noSlot (List.cons_ne_nil _ _) (by simp [twoForeign, foreignMiddleWare])
  have alike : Alike ⟨.empty, []⟩ ⟨[], []⟩ :=
    ⟨⟨fun _ mem => absurd mem List.not_mem_nil, rfl, fun _ mem => absurd mem List.not_mem_nil⟩,
      rfl, fun _ mem => absurd mem List.not_mem_nil⟩
  have accepted : DefaultRange (acceptedConnection 0) := rfl
  have default : ∀ served ∈ reuseLog, served.Default := by
    simp only [reuseLog, List.forall_mem_cons]
    refine ⟨⟨trivial, ?_⟩, ⟨trivial, ?_⟩, ⟨trivial, ?_⟩, fun _ mem => absurd mem List.not_mem_nil⟩
    · simp [accepted]
    · exact fun _ mem => absurd mem List.not_mem_nil
    · exact fun _ mem => absurd mem List.not_mem_nil
  exact (pools_serve_alike noSlot ⟨rfl, rfl, trivial⟩ alike reuseLog default).mp run_reuseLog

end MCRedis.Pool
