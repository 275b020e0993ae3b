import Agentsfleet.Core.Net

/-!
# Requests

A request as a tool drafts it, and the parts of a parsed URL the guard reads.
Parsing belongs to the URL library, which the guard takes as a parameter.
-/

set_option autoImplicit false

namespace Agentsfleet.Egress

inductive Placement where
  | authorization
  | nowhere
deriving DecidableEq, Repr

structure Draft where
  method : String
  url : String
  headers : List (String × String)
  body : Option String
  placement : Placement
deriving DecidableEq, Repr

inductive Host where
  | domain (name : String)
  | ipv4 (address : Core.Ipv4Addr)
  | ipv6 (address : Core.Ipv6Addr)
deriving DecidableEq, Repr

structure Url where
  scheme : String
  username : String
  password : Option String
  host : Option Host
  hostStr : Option String
  /-- The port written, or the one the scheme is known by. -/
  port : Option Nat
  path : String
  query : Option String
  text : String
deriving DecidableEq, Repr

inductive Method where
  | get
  | head
  | post
  | put
  | patch
  | delete
  | options
deriving DecidableEq, Repr

def Method.asStr : Method → String
  | .get => "GET"
  | .head => "HEAD"
  | .post => "POST"
  | .put => "PUT"
  | .patch => "PATCH"
  | .delete => "DELETE"
  | .options => "OPTIONS"

def methods : List Method := [.get, .head, .post, .put, .patch, .delete, .options]

def eqIgnoreAsciiCase (left right : String) : Bool :=
  left.toList.map Char.toLower == right.toList.map Char.toLower

end Agentsfleet.Egress
