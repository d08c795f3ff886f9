import ShadowVpn.Lib.Lines
import ShadowVpn.Net.Inspect

/-! HTTP requests and their prefixes: what `http_host` of `inspect.rs` reads of them, in the first 1024
bytes. A window that ends within the host line yields the host as far as it goes. -/

namespace ShadowVpn.Net.Requests
open ShadowVpn.Lib.Octets ShadowVpn.Lib.Text ShadowVpn.Lib.Panic ShadowVpn.Lib.Utf8 ShadowVpn.Lib.Lines
open ShadowVpn.Net.Inspect
open ShadowVpn.Policy.Chnroute (isWhitespace)
open ShadowVpn.Policy.Country (eqIgnoreAsciiCase)

def crlf : Chars := ['\r', '\n']

def ended (lines : List Chars) : Chars := lines.flatMap fun line => line ++ crlf

/-- A request up to its first `Host` line, and any bytes after that line. -/
structure Request where
  method : Chars
  target : Chars
  before : List Chars
  name : Chars
  value : Chars
  after : Bytes

namespace Request

/-- The method and its space, the target and the version. -/
def requestLine (r : Request) : Chars := r.method ++ ' ' :: r.target
def hostLine (r : Request) : Chars := r.name ++ ':' :: r.value

def front (r : Request) : Chars := ended (r.requestLine :: r.before)
def head (r : Request) : Chars := r.front ++ (r.hostLine ++ crlf)
def encode (r : Request) : Bytes := utf8 r.head ++ r.after

/-- What is reported of the first bytes: the method, and the host as far as the window goes. -/
def shown (r : Request) (n : Nat) : Option (Chars × Chars) :=
  if r.method.length + 1 ≤ min n 1024 then
    (hostOf (r.hostLine.take (min n 1024 - r.front.length))).map fun host => (r.method, host)
  else none

end Request

/-- ASCII without a carriage return. -/
def Clean (line : Chars) : Prop := ∀ c ∈ line, c.utf8Size = 1 ∧ c ≠ '\r'

instance (line : Chars) : Decidable (Clean line) := List.decidableBAll _ line

structure Request.WellFormed (r : Request) : Prop where
  method : r.method ++ [' '] ∈ methods
  clean : ∀ line ∈ r.requestLine :: r.before ++ [r.hostLine], Clean line
  others : ∀ line ∈ r.before, eqIgnoreAsciiCase (line.take 5) ['h', 'o', 's', 't', ':'] = false
  name : eqIgnoreAsciiCase r.name ['h', 'o', 's', 't'] = true
  value : trim isWhitespace r.value ≠ []

section Windows

end Windows

section Splitting

end Splitting

section Searching

/-- A line that does not begin with `Host:`. -/
def Other (line : Chars) : Prop := eqIgnoreAsciiCase (line.take 5) ['h', 'o', 's', 't', ':'] = false

theorem Other.take {line : Chars} (other : Other line) (k : Nat) : Other (line.take k) := by
  apply Bool.eq_false_iff.mpr
  intro named
  have length := (size_of_host _ named).2
  have whole : 5 ≤ k := by
    rw [List.length_take, List.length_take] at length
    omega
  rw [List.take_take, Nat.min_eq_left whole, other] at named
  cases named

theorem Clean.ascii {line : Chars} (clean : Clean line) : ∀ c ∈ line, c.utf8Size = 1 :=
  fun c member => (clean c member).1

theorem Clean.take {line : Chars} (clean : Clean line) (k : Nat) : Clean (line.take k) :=
  fun c member => clean c (List.mem_of_mem_take member)

variable {hostLine host tail : Chars}

end Searching

section Requests

variable {r : Request}

end Requests

end ShadowVpn.Net.Requests
