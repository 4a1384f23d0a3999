import FpgaEthash.Computation.Throwing
import FpgaEthash.Pool.Uri
import FpgaEthash.Pool.UrlDecode
import FpgaEthash.Text.Regex

/-!
# From a command line argument to a pool address

The constructor of `URI` in `PoolURI.cpp`, with its patterns.  The text is cut into scheme and
authority, the authority at its last `'@'` into credentials and place, and these further; at the
end every part is percent decoded on its own.

The checks of scheme and host stand behind the first pattern.  A text that the first pattern does
not match is not rejected: the constructor returns before the checks, with every part empty
(`construct_validated_iff`).
-/

namespace FpgaEthash
namespace Pool

open Devcore Regex Throwing

/-! ## The schemes -/

/-- `ProtocolFamily`. -/
inductive ProtocolFamily where
  | getwork
  | stratum
  | simulation
  deriving DecidableEq, Repr

/-- `SchemeAttributes`. -/
structure SchemeAttributes where
  family : ProtocolFamily
  secure : SecureLevel
  version : ℕ
  deriving DecidableEq, Repr

/-- `s_schemes`. -/
def sSchemes : List (StdString × SchemeAttributes) :=
  [("stratum+tcp".toList, ⟨.stratum, .none, 0⟩),
    ("stratum1+tcp".toList, ⟨.stratum, .none, 1⟩),
    ("stratum2+tcp".toList, ⟨.stratum, .none, 2⟩),
    ("stratum3+tcp".toList, ⟨.stratum, .none, 3⟩),
    ("stratum+tls".toList, ⟨.stratum, .tls, 0⟩),
    ("stratum1+tls".toList, ⟨.stratum, .tls, 1⟩),
    ("stratum2+tls".toList, ⟨.stratum, .tls, 2⟩),
    ("stratum3+tls".toList, ⟨.stratum, .tls, 3⟩),
    ("stratum+tls12".toList, ⟨.stratum, .tls12, 0⟩),
    ("stratum1+tls12".toList, ⟨.stratum, .tls12, 1⟩),
    ("stratum2+tls12".toList, ⟨.stratum, .tls12, 2⟩),
    ("stratum3+tls12".toList, ⟨.stratum, .tls12, 3⟩),
    ("stratum+ssl".toList, ⟨.stratum, .tls12, 0⟩),
    ("stratum1+ssl".toList, ⟨.stratum, .tls12, 1⟩),
    ("stratum2+ssl".toList, ⟨.stratum, .tls12, 2⟩),
    ("stratum3+ssl".toList, ⟨.stratum, .tls12, 3⟩),
    ("http".toList, ⟨.getwork, .none, 0⟩),
    ("getwork".toList, ⟨.getwork, .none, 0⟩),
    ("stratum".toList, ⟨.stratum, .none, 999⟩),
    ("stratums".toList, ⟨.stratum, .tls, 999⟩),
    ("stratumss".toList, ⟨.stratum, .tls12, 999⟩),
    ("simulation".toList, ⟨.simulation, .none, 999⟩)]

/-! ## The patterns -/

/-- `.`, anything but a line break. -/
def dot (c : Char) : Bool := c ≠ '\n' ∧ c ≠ '\r'

/-- `[a-zA-Z0-9\+]`. -/
def isSchemeChar (c : Char) : Bool := c.isAlphanum || c = '+'

/-- `(.*)`, as group `i`. -/
def anything (i : ℕ) : Pattern Char := .group i (.star (.one dot))

/-- `^([a-zA-Z0-9\+]{1,})\:\/\/(.*)$`. -/
def schAuth : Pattern Char :=
  .seq .start <| .seq (.group 1 (.seq (.one isSchemeChar) (.star (.one isSchemeChar)))) <|
    .seq (.char ':') <| .seq (.char '/') <| .seq (.char '/') <| .seq (anything 2) .finish

/-- `^(.*)c(.*)$`, for a separator `c`. -/
def twoParts (c : Char) : Pattern Char :=
  .seq .start <| .seq (anything 1) <| .seq (.char c) <| .seq (anything 2) .finish

/-- `^(.*)\@(.*)$`. -/
def usrUrl : Pattern Char := twoParts '@'

/-- `^(.*)\.(.*)\:(.*)$`. -/
def userWorkerPassword : Pattern Char :=
  .seq .start <| .seq (anything 1) <| .seq (.char '.') <| .seq (anything 2) <|
    .seq (.char ':') <| .seq (anything 3) .finish

/-- `^(.*)\:(.*)$`. -/
def userPassword : Pattern Char := twoParts ':'

/-- `^(.*)\.(.*)$`. -/
def userWorker : Pattern Char := twoParts '.'

/-- `r{0,n}`. -/
def atMost (r : Pattern Char) : ℕ → Pattern Char
  | 0 => .empty
  | n + 1 => .alt (.seq r (atMost r n)) .empty

/-- `^(.*)\:([0-9]{1,5})$`. -/
def hostPattern : Pattern Char :=
  .seq .start <| .seq (anything 1) <| .seq (.char ':') <|
    .seq (.group 2 (.seq (.one Char.isDigit) (atMost (.one Char.isDigit) 4))) .finish

/-- `(\/.*)`, as group 1. -/
def pathGroup : Pattern Char := .group 1 (.seq (.char '/') (.star (.one dot)))

/-- `(\/.*)\?(.*)\#(.*)$`. -/
def pathQueryFragment : Pattern Char :=
  .seq pathGroup <| .seq (.char '?') <| .seq (anything 2) <| .seq (.char '#') <|
    .seq (anything 3) .finish

/-- `(\/.*)\#(.*)$`. -/
def pathFragment : Pattern Char :=
  .seq pathGroup <| .seq (.char '#') <| .seq (anything 2) .finish

/-- `(\/.*)\?(.*)$`. -/
def pathQuery : Pattern Char :=
  .seq pathGroup <| .seq (.char '?') <| .seq (anything 2) .finish

/-- `[a-zA-Z0-9]|[a-zA-Z0-9][a-zA-Z0-9\-]*[a-zA-Z0-9]`. -/
def hostLabel : Pattern Char :=
  .alt (.one Char.isAlphanum) <| .seq (.one Char.isAlphanum) <|
    .seq (.star (.one fun c => c.isAlphanum || c = '-')) (.one Char.isAlphanum)

/-- `hostNamePattern`. -/
def hostNamePattern : Pattern Char :=
  .seq .start <| .seq (.star (.group 1 (.seq (.group 2 hostLabel) (.char '.')))) <|
    .seq (.group 3 hostLabel) .finish

/-! ## Credentials -/

/-- `map[key] = value`, for a map with its keys in order. -/
def mapAssign (key value : StdString) : List (StdString × StdString) → List (StdString × StdString)
  | [] => [(key, value)]
  | (k, v) :: m =>
    if key < k then (key, value) :: (k, v) :: m
    else if key = k then (key, value) :: m
    else (k, v) :: mapAssign key value m

/-- `"_" + std::to_string(i)`. -/
def token (i : ℕ) : StdString := '_' :: Nat.toDigits 10 i

/-- `btick_blocks`, for the texts in backticks. -/
def btickBlocks (texts : List StdString) : List (StdString × StdString) :=
  texts.zipIdx.foldl (fun m text => mapAssign (token text.2) text.1 m) []

/-- A text in backticks. -/
def quote (s : StdString) : StdString := '`' :: (s ++ ['`'])

/-- Every text in backticks is replaced by its token, one text after the other. -/
def tokenize (blocks : List (StdString × StdString)) (userinfo : StdString) : StdString :=
  blocks.foldl (fun s block => Text.replaceAll (quote block.2) (quote block.1) s) userinfo

/-- Every token is replaced by its text, one token after the other. -/
def untokenize (blocks : List (StdString × StdString)) (part : StdString) : StdString :=
  blocks.foldl (fun s block => Text.replaceAll (quote block.1) block.2 s) part

/-- `m_user`, `m_worker` and `m_password`. -/
structure Login where
  user : StdString := []
  worker : StdString := []
  password : StdString := ['X']
  deriving DecidableEq

/-- The patterns of `usr_patterns`, the first that matches. -/
def splitLogin (userinfo : StdString) : Login :=
  match search userWorkerPassword userinfo with
  | some m => { user := m.groups 1, worker := m.groups 2, password := m.groups 3 }
  | none =>
    match search userPassword userinfo with
    | some m => { user := m.groups 1, password := m.groups 2 }
    | none =>
      match search userWorker userinfo with
      | some m => { user := m.groups 1, worker := m.groups 2 }
      | none => { user := userinfo }

/-- What `f` makes of each part. -/
def Login.map (f : StdString → StdString) (l : Login) : Login :=
  ⟨f l.user, f l.worker, f l.password⟩

theorem Login.worker_map (f : StdString → StdString) (l : Login) :
    (l.map f).worker = f l.worker := rfl

theorem Login.password_map (f : StdString → StdString) (l : Login) :
    (l.map f).password = f l.password := rfl

/-- The parts of `m_userinfo` with the tokens put back, and `m_userinfo` itself. -/
def readUserinfo (authority userinfo : StdString) : Login × StdString :=
  if userinfo = [] then ({}, [])
  else
    let blocks := btickBlocks (enclosedTexts '`' authority)
    let tokens := tokenize blocks userinfo
    ((splitLogin tokens).map (untokenize blocks), untokenize blocks tokens)

/-! ## Host and path -/

/-- What the constructor can throw. -/
inductive UriException where
  | runtimeError (what : String)
  | badLexicalCast
  deriving DecidableEq, Repr

/-- The number that a text of decimal digits stands for. -/
def decimal (digits : StdString) : ℕ := digits.foldl (fun n c => 10 * n + (c.toNat - 48)) 0

/-- `boost::lexical_cast<uint16_t>`, of a text of digits. -/
def lexicalCast (digits : StdString) : Except UriException (BitVec 16) :=
  if decimal digits < 65536 then .ok (BitVec.ofNat 16 (decimal digits)) else .error .badLexicalCast

/-- `m_host` and `m_port`. -/
def splitHostinfo (hostinfo : StdString) : Except UriException (StdString × BitVec 16) :=
  match search hostPattern hostinfo with
  | some m => do
      let port ← lexicalCast (m.groups 2)
      return (m.groups 1, port)
  | none => .ok (hostinfo, 0)

/-- `m_host` and `m_port`, with the check that there is a host. -/
def readHostinfo (hostinfo : StdString) : Except UriException (StdString × BitVec 16) := do
  let place ← splitHostinfo hostinfo
  if place.1 = [] then throw (.runtimeError "Missing host") else return place

/-- `m_path`, `m_query` and `m_fragment`. -/
def readPathinfo (pathinfo : StdString) : StdString × StdString × StdString :=
  if pathinfo = [] then ([], [], [])
  else
    match search pathQueryFragment pathinfo with
    | some m => (m.groups 1, m.groups 2, m.groups 3)
    | none =>
      match search pathFragment pathinfo with
      | some m => (m.groups 1, [], m.groups 2)
      | none =>
        match search pathQuery pathinfo with
        | some m => (m.groups 1, m.groups 2, [])
        | none => (pathinfo, [], [])

/-- A `boost::asio::ip::address`, as far as it is asked. -/
structure IpAddress where
  isV6 : Bool
  isLoopback : Bool

/-- `m_hostType` and `m_isLoopBack`; the latter is not set for a host that is no address. -/
def readHost (fromString : StdString → Option IpAddress) (host : StdString) :
    UriHostNameType × Option Bool :=
  match fromString host with
  | some address => (if address.isV6 then .ipv6 else .ipv4, some address.isLoopback)
  | none => (if isMatch hostNamePattern host then .dns else .basic, none)

/-! ## The constructor -/

/-- The members of `URI` that the constructor sets. -/
structure UriFields where
  uri : StdString
  scheme : StdString := []
  authority : StdString := []
  userinfo : StdString := []
  urlinfo : StdString := []
  hostinfo : StdString := []
  pathinfo : StdString := []
  host : StdString := []
  path : StdString := []
  query : StdString := []
  fragment : StdString := []
  login : Login := {}
  port : BitVec 16 := 0
  hostType : UriHostNameType := .unknown
  isLoopBack : Option Bool := none

/-- `to_lower`. -/
def toLower (s : StdString) : StdString := s.map Char.toLower

/-- `if (url_decode(s, tmpStr)) s = tmpStr`. -/
def decodeInPlace (s : StdString) : StdString := if (urlDecode s).1 then (urlDecode s).2 else s

/-- `m_userinfo` and `m_urlinfo`. -/
def splitAuthority (authority : StdString) : StdString × StdString :=
  match search usrUrl authority with
  | some m => (m.groups 1, m.groups 2)
  | none => ([], authority)

/-- The checks of scheme and authority. -/
def checkScheme (sim : Bool) (scheme authority : StdString) : Except UriException Unit :=
  if authority = [] then .error (.runtimeError "Invalid authority")
  else if sim = false ∧ scheme = "simulation".toList then .error (.runtimeError "Invalid scheme")
  else if sSchemes.lookup scheme = none then .error (.runtimeError "Invalid scheme")
  else .ok ()

/-- The constructor behind the first pattern. -/
def constructParts (fromString : StdString → Option IpAddress) (uri : StdString) (sim : Bool)
    (scheme authority : StdString) : Except UriException UriFields := do
  checkScheme sim scheme authority
  let info := splitAuthority authority
  let credentials := readUserinfo authority info.1
  let hostinfo := toLower (info.2.takeWhile (· ≠ '/'))
  let pathinfo := info.2.dropWhile (· ≠ '/')
  let place ← readHostinfo hostinfo
  let path := readPathinfo pathinfo
  let hostType := readHost fromString place.1
  return {
    uri := uri
    scheme := scheme
    authority := authority
    userinfo := decodeInPlace credentials.2
    urlinfo := decodeInPlace info.2
    hostinfo := decodeInPlace hostinfo
    pathinfo := decodeInPlace pathinfo
    host := place.1
    path := decodeInPlace path.1
    query := decodeInPlace path.2.1
    fragment := decodeInPlace path.2.2
    login := (credentials.1.map (Text.replaceAll ['`'] [])).map decodeInPlace
    port := place.2
    hostType := hostType.1
    isLoopBack := hostType.2 }

/-- `URI::URI`. -/
def construct (fromString : StdString → Option IpAddress) (uri : StdString) (sim : Bool) :
    Except UriException UriFields :=
  match search schAuth uri with
  | none => .ok { uri := uri }
  | some m => constructParts fromString uri sim (toLower (m.groups 1)) (m.groups 2)

namespace UriFields

/-- `s_schemes[m_scheme]`: a key that is missing is given the value that has every member zero. -/
def attributes (u : UriFields) : SchemeAttributes :=
  (sSchemes.lookup u.scheme).getD ⟨.getwork, .none, 0⟩

/-- `Family`. -/
def family (u : UriFields) : ProtocolFamily := u.attributes.family

/-- The address as the clients see it. -/
def toUri (u : UriFields) : Uri where
  version := u.attributes.version
  secLevel := u.attributes.secure
  host := u.host
  hostNameType := u.hostType
  port := u.port
  path := u.path
  user := u.login.user
  pass := u.login.password
  workername := u.login.worker

end UriFields

/-! ## Scheme and authority -/

/-- The text begins with a scheme: letters, digits and `'+'`, at least one, and then `://`; no line
break follows. -/
def HasScheme (uri : StdString) : Prop :=
  ∃ scheme rest, uri = scheme ++ ':' :: '/' :: '/' :: rest ∧ scheme ≠ [] ∧
    (∀ c ∈ scheme, isSchemeChar c = true) ∧ ∀ c ∈ rest, dot c = true

/-- **The first pattern cuts a text at its scheme.** -/
theorem search_schAuth {scheme rest : StdString} (hne : scheme ≠ [])
    (hscheme : ∀ c ∈ scheme, isSchemeChar c = true) (hrest : ∀ c ∈ rest, dot c = true) :
    search schAuth (scheme ++ ':' :: '/' :: '/' :: rest) =
      some ⟨false, [], Function.update (Function.update (fun _ => []) 1 scheme) 2 rest⟩ := by
  rw [schAuth, search_start, Position.init, exec_seq]
  refine exec_group_plus_eq_some hne hscheme ?_ ?_
  · rw [exec_seq, exec_char_self, exec_seq, exec_char_self, exec_seq, exec_char_self, exec_seq,
      anything, exec_toEnd hrest]
    rfl
  · -- A longer stretch would contain the colon.
    intro y b' hb hy hscheme'
    obtain ⟨c, y, rfl⟩ := List.exists_cons_of_ne_nil hy
    rw [List.cons_append, List.cons.injEq] at hb
    have hcolon := hscheme' c List.mem_cons_self
    rw [← hb.1] at hcolon
    exact absurd hcolon (by decide)

theorem search_schAuth_eq_none {uri : StdString} (h : ¬ HasScheme uri) :
    search schAuth uri = none := by
  rw [schAuth, search_start, Position.init, exec_seq]
  refine exec_group_plus_eq_none fun scheme b huri hne hscheme => ?_
  rw [exec_seq]
  refine exec_char_eq_none fun b₁ h₁ => ?_
  rw [exec_seq]
  refine exec_char_eq_none fun b₂ h₂ => ?_
  rw [exec_seq]
  refine exec_char_eq_none fun rest h₃ => ?_
  subst h₃ h₂ h₁
  have hbreak : ¬ ∀ c ∈ rest, dot c = true := fun hrest =>
    h ⟨scheme, rest, huri, hne, hscheme, hrest⟩
  obtain ⟨c, hc, hdot⟩ : ∃ c ∈ rest, dot c = false := by simpa using hbreak
  rw [exec_seq]
  exact exec_toEnd_eq_none hc hdot

/-! ## Validation -/

/-- What all later code takes for granted. -/
def Validated (sim : Bool) (u : UriFields) : Prop :=
  (sSchemes.lookup u.scheme).isSome ∧ (u.scheme = "simulation".toList → sim = true) ∧ u.host ≠ []

theorem checkScheme_eq_ok {sim : Bool} {scheme authority : StdString}
    (h : checkScheme sim scheme authority = .ok ()) :
    authority ≠ [] ∧ (sSchemes.lookup scheme).isSome ∧
      (scheme = "simulation".toList → sim = true) := by
  unfold checkScheme at h
  split_ifs at h with hauthority hsim hknown
  refine ⟨hauthority, Option.isSome_iff_ne_none.mpr hknown, fun hscheme => ?_⟩
  cases sim with
  | true => rfl
  | false => exact absurd ⟨rfl, hscheme⟩ hsim

theorem readHostinfo_eq_ok {hostinfo : StdString} {place : StdString × BitVec 16}
    (h : readHostinfo hostinfo = .ok place) : place.1 ≠ [] := by
  obtain ⟨place', -, hcheck⟩ := except_bind_eq_ok.mp h
  split at hcheck
  · exact absurd hcheck (by nofun)
  · next hhost =>
      obtain rfl : place' = place := Except.ok.inj hcheck
      exact hhost

theorem constructParts_eq_ok {fromString : StdString → Option IpAddress}
    {uri scheme authority : StdString} {sim : Bool} {u : UriFields}
    (h : constructParts fromString uri sim scheme authority = .ok u) :
    checkScheme sim scheme authority = .ok () ∧
      readHostinfo (toLower ((splitAuthority authority).2.takeWhile (· ≠ '/'))) =
        .ok (u.host, u.port) ∧ u.scheme = scheme := by
  obtain ⟨_, hscheme, h⟩ := except_bind_eq_ok.mp h
  obtain ⟨place, hplace, h⟩ := except_bind_eq_ok.mp h
  obtain rfl := Except.ok.inj h
  exact ⟨hscheme, hplace, rfl⟩

/-- What the constructor accepts behind its first pattern is validated. -/
theorem validated_of_constructParts {fromString : StdString → Option IpAddress}
    {uri scheme authority : StdString} {sim : Bool} {u : UriFields}
    (h : constructParts fromString uri sim scheme authority = .ok u) : Validated sim u := by
  obtain ⟨hscheme, hplace, rfl⟩ := constructParts_eq_ok h
  obtain ⟨-, hknown, hsim⟩ := checkScheme_eq_ok hscheme
  exact ⟨hknown, hsim, readHostinfo_eq_ok hplace⟩

/-- **Validation of an address.**  If the constructor returns, scheme and host have been checked,
exactly for the texts that begin with a scheme; for all others it returns unchecked. -/
theorem construct_validated_iff (fromString : StdString → Option IpAddress) (uri : StdString)
    (sim : Bool) :
    (∀ u, construct fromString uri sim = .ok u → Validated sim u) ↔ HasScheme uri := by
  constructor
  · intro h
    by_contra hscheme
    have hreturn : construct fromString uri sim = .ok { uri := uri } := by
      rw [construct, search_schAuth_eq_none hscheme]
    exact (h _ hreturn).2.2 rfl
  · rintro ⟨scheme, rest, rfl, hne, hscheme, hrest⟩ u hu
    rw [construct, search_schAuth hne hscheme hrest] at hu
    exact validated_of_constructParts hu

/-- An address without a scheme: the constructor returns, with neither scheme nor host, and the
protocol of the pool is looked up under an empty name. -/
theorem construct_unchecked :
    ∃ u, construct (fun _ => none) "localhost:8545".toList false = .ok u ∧ u.scheme = [] ∧
      u.host = [] ∧ sSchemes.lookup u.scheme = none ∧ u.family = .getwork ∧
      u.toUri.version = 0 ∧ u.toUri.secLevel = .none := by
  have hnone : search schAuth "localhost:8545".toList = none := by decide
  refine ⟨{ uri := "localhost:8545".toList }, ?_, rfl, rfl, by decide, by decide, by decide,
    by decide⟩
  rw [construct, hnone]

end Pool
end FpgaEthash
