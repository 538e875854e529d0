import MCRedis.MiddleWare.Slaves
import MCRedis.MiddleWare.Objects
import MCRedis.Text.Decimal

/-!
# Constructing the middlewares

`CSentinelSupport` and `CClusterSupport` are constructed from one host or from a
list of hosts.  The hosts of a list are checked one after the other: one that
cannot be reached stays in the list, one that gives another kind of reply than a
sentinel or a node of a cluster empties the list.  A single sentinel is asked for
the addresses of the others.
-/

namespace MCRedis.MiddleWare

open MCRedis.Client
open MCRedis.Container
open MCRedis.Text
open MCRedis.Transition

/-! ## The constructors -/

namespace CSentinelSupport

end CSentinelSupport

namespace CClusterSupport

end CClusterSupport

/-! ## What the hosts answer -/

/-- The address that a connect is passed. -/
def address (host : Bytes × Nat) : Bytes × Nat :=
  (cString host.1, host.2)

def askedHost : Event MwOp MwAns → Option (Bytes × Nat)
  | ⟨.redis (.connectWithTimeout host port _), _⟩ => some (host, port)
  | _ => none

/-- The addresses to which a call connects. -/
def hostsAsked (trace : List (Event MwOp MwAns)) : List (Bytes × Nat) :=
  trace.filterMap askedHost

/-- The reply that `sendCommand` makes of an answer. -/
def replyOf : CommandAnswer → CReply
  | .appendFailed error => .ofError error.err error.errstr
  | .replyFailed error => .ofError error.err error.errstr
  | .reply reply => .ofRaw reply

/-- What is known of a host after an event: that it does not accept a connection, or
its reply. -/
def visitOf : Event MwOp MwAns → Option (Option CReply)
  | ⟨.redis (.connectWithTimeout _ _ _), answer⟩ =>
      if answer = ConnectAnswer.connected then none else some none
  | ⟨.redis (.commandArgv _ _), answer⟩ => some (some (replyOf answer))
  | _ => none

def visits (trace : List (Event MwOp MwAns)) : List (Option CReply) :=
  trace.filterMap visitOf

/-- A part of a constructor: the connections held before and after it, the hosts that
are asked, and what is known of them. -/
structure Visiting (held : List Nat) (trace : List (Event MwOp MwAns)) (after : List Nat)
    (asked : List (Bytes × Nat)) (answers : List (Option CReply)) : Prop where
  balanced : objects.Balanced held trace after
  asked : hostsAsked trace = asked
  answered : visits trace = answers

theorem Visiting.nil (held : List Nat) : Visiting held [] held [] [] :=
  ⟨.nil held, rfl, rfl⟩

theorem Visiting.append {held middle after : List Nat} {first second : List (Event MwOp MwAns)}
    {asked others : List (Bytes × Nat)} {answers later : List (Option CReply)}
    (front : Visiting held first middle asked answers)
    (back : Visiting middle second after others later) :
    Visiting held (first ++ second) after (asked ++ others) (answers ++ later) where
  balanced := front.balanced.append back.balanced
  asked := by
    rw [hostsAsked, List.filterMap_append]
    exact congrArg₂ _ front.asked back.asked
  answered := by
    rw [visits, List.filterMap_append]
    exact congrArg₂ _ front.answered back.answered

/-- A host that stays in the list: it cannot be reached, or replies as it should. -/
def Passes (type : EType) : Option CReply → Prop
  | none => True
  | some rpy => rpy.getType = type

/-- The hosts all pass and are kept, or one that is reached does not, and no host is
visited behind it. -/
inductive Outcome (type : EType) (hosts : List (Bytes × Nat)) :
    List (Option CReply) → Bool → Prop
  | kept {answers : List (Option CReply)} : (∀ answer ∈ answers, Passes type answer) →
      answers.length = hosts.length → Outcome type hosts answers true
  | cleared {answers : List (Option CReply)} {rpy : CReply} :
      (∀ answer ∈ answers, Passes type answer) → answers.length < hosts.length →
      rpy.getType ≠ type → Outcome type hosts (answers ++ [some rpy]) false

theorem Outcome.cons {type : EType} {hosts : List (Bytes × Nat)} {answers : List (Option CReply)}
    {kept : Bool} {answer : Option CReply} (outcome : Outcome type hosts answers kept)
    (passes : Passes type answer) (host : Bytes × Nat) :
    Outcome type (host :: hosts) (answer :: answers) kept := by
  cases outcome with
  | kept all length =>
      exact .kept (List.forall_mem_cons.mpr ⟨passes, all⟩) (congrArg Nat.succ length)
  | cleared all length other =>
      exact .cleared (List.forall_mem_cons.mpr ⟨passes, all⟩) (Nat.succ_lt_succ length) other

/-! ## The visits -/

/-- The names and values of the fields by which a sentinel describes another one. -/
structure SentinelFields where
  fields : List (Bytes × Bytes)
  ip : Bytes
  port : Nat
  ipAt : fields[1]? = some (ipName, ip)
  portAt : fields[2]? = some (portName, decimalNat port)
  portBound : port < 65536

namespace SentinelFields

def reply (entry : SentinelFields) : RedisReply :=
  .array (entry.fields.flatMap fun field => [.string field.1, .string field.2])

def address (entry : SentinelFields) : Bytes × Nat :=
  (entry.ip, entry.port)

end SentinelFields

end MCRedis.MiddleWare
