import Docroot.Connection

/-!
The clients of a server. Each has a token, under which the poll knows its stream and for which it reports
events. Tokens 0 and 1 belong to the listener and the waker; the next one is found by counting up, from the
largest back to 2, over those in use.
-/
namespace Docroot.Server

def listenerToken : Nat := 0
/-- The token by which a shutdown is asked for. -/
def wakerToken : Nat := 1
def firstToken : Nat := 2
def maxToken : Nat := 0xFFFFFFFFFFFFFFFF

/-- A connection, and what its stream is registered for. -/
structure Client where
  /-- The number of the stream in the order of acceptance. -/
  serial : Nat
  connection : Connection
  interest : Interest
  deriving DecidableEq, Repr

/-- Values under tokens, each token at most once. -/
abbrev Table (α : Type) := List (Nat × α)

namespace Table

variable {α : Type}

def get? (table : Table α) (token : Nat) : Option α := List.lookup token table

def tokens (table : Table α) : List Nat := List.map Prod.fst table

/-- Puts a value under a token that is not in use. -/
def insert (table : Table α) (token : Nat) (value : α) : Table α := table ++ [(token, value)]

/-- Puts another value under a token in use. -/
def update (table : Table α) (token : Nat) (value : α) : Table α :=
  List.map (fun entry => if entry.1 = token then (token, value) else entry) table

def remove (table : Table α) (token : Nat) : Table α :=
  List.filter (fun entry => entry.1 != token) table

@[simp] theorem tokens_insert (table : Table α) (token : Nat) (value : α) :
    (table.insert token value).tokens = table.tokens ++ [token] := by
  simp [tokens, insert]

@[simp] theorem tokens_update (table : Table α) (token : Nat) (value : α) :
    (table.update token value).tokens = table.tokens := by
  simp only [tokens, update, List.map_map]
  apply List.map_congr_left
  intro entry _
  simp only [Function.comp]
  split
  · next h => exact h.symm
  · rfl

theorem tokens_remove (table : Table α) (token : Nat) :
    (table.remove token).tokens = table.tokens.filter (· != token) := by
  simp [tokens, remove, List.filter_map, Function.comp_def]

end Table

def nextAfter (token : Nat) : Nat := if token = maxToken then firstToken else token + 1

/-- The first token from `next` on that is not in `taken`, and the one to start from the next time. With as
many steps as there are tokens in use one is found. -/
def freshToken (taken : List Nat) : Nat → Nat → Nat × Nat
  | 0, next => (next, nextAfter next)
  | steps + 1, next =>
    if taken.contains next then freshToken taken steps (nextAfter next) else (next, nextAfter next)

end Docroot.Server
