import Descramble.Text.Search

/-!
# Page locations

The parts of an absolute address under the names that a page's `location` gives them.
-/

namespace Descramble

structure Location where
  hash : String
  host : String
  hostname : String
  href : String
  origin : String
  password : String
  pathname : String
  port : String
  protocol : String
  search : String
  username : String
deriving DecidableEq

namespace Location

/-- A host name and the port after its last colon, which is empty where there is no colon. -/
def splitPort (host : List Char) : List Char × List Char :=
  let port := (host.reverse.takeWhile (· != ':')).reverse
  if port.length = host.length then (host, [])
  else (host.take (host.length - port.length - 1), port)

/-- Cuts an address at the first `://`, then before the first of `/`, `?` and `#`, then before the
    first `#`, then before the first `?`. An empty path counts as `/`. -/
def ofUrl (url : String) : Location :=
  let cs := url.toList
  let (scheme, rest) := (cutAt? "://".toList cs).getD ([], cs)
  let inHost := fun c => c != '/' && c != '?' && c != '#'
  let host := rest.takeWhile inHost
  let rest := rest.dropWhile inHost
  let hash := rest.dropWhile (· != '#')
  let rest := rest.takeWhile (· != '#')
  let path := rest.takeWhile (· != '?')
  let search := rest.dropWhile (· != '?')
  let (hostname, port) := splitPort host
  let protocol := String.ofList (scheme ++ [':'])
  { hash := String.ofList hash
    host := String.ofList host
    hostname := String.ofList hostname
    href := url
    origin := protocol ++ "//" ++ String.ofList host
    password := ""
    pathname := if path.isEmpty then "/" else String.ofList path
    port := String.ofList port
    protocol := protocol
    search := String.ofList search
    username := "" }

/-- The parts with their names, in alphabetical order. -/
def fields (l : Location) : List (String × String) :=
  [("hash", l.hash), ("host", l.host), ("hostname", l.hostname), ("href", l.href),
   ("origin", l.origin), ("password", l.password), ("pathname", l.pathname), ("port", l.port),
   ("protocol", l.protocol), ("search", l.search), ("username", l.username)]

end Location

end Descramble
