import GrokBuild.WebFetch.Address

/-!
# Web fetch: the client

`client.rs` and `check_ssrf`: validation of the input, the upgrade to https and
the loop that follows redirects of the same host. The `url` crate, the resolver
and the servers are parameters; what the client does is recorded as a trace of
its checks, requests and followed redirects. What becomes of the body is left
out.
-/

namespace GrokBuild.WebFetch

open TextLines Str

/-- What the client uses of the `url` crate; an error is its text. -/
structure UrlCrate (Url : Type) where
  parse : Text → Except Text Url
  asStr : Url → Text
  scheme : Url → Text
  username : Url → Text
  password : Url → Option Text
  hostStr : Url → Option Text
  portOrKnownDefault : Url → Option Nat
  setScheme : Url → Text → Option Url
  join : Url → Text → Except Text Url

/-- `WebFetchError`, as far as a fetch up to its content returns it. -/
inductive WebFetchError where
  | urlTooLong (max : Nat)
  | unsupportedScheme (scheme : Text)
  | credentialsInUrl
  | singleLabelHost (host : Text)
  | invalidUrl (error : Text)
  | ssrfBlocked (host : Text) (ip : IpAddr)
  | dnsResolution (host source : Text)
  | dnsEmpty (host : Text)
  | clientBuildError (error : Text)
  | httpRequest (error : Text)
  | invalidRedirect (error : Text)
  | tooManyRedirects (max : Nat)
  | responseTooLarge (max : Nat)
  deriving DecidableEq

def maxUrlLength : Nat := 2000

def maxRedirects : Nat := 10

/-- `lookup_host`. -/
abbrev Resolver := Text → Except Text (List IpAddr)

structure Response where
  status : Nat
  /-- The `Location` header, as `to_str` reads it. -/
  location : Option (Option Text)
  contentType : Option Text
  url : Text
  body : Except Text (List UInt8)

/-- What comes of `send`: the client refuses the URL and sends nothing, the
request fails, or it is answered. -/
inductive Reply where
  | refused (error : Text)
  | failed (error : Text)
  | answered (response : Response)

/-- The world at one turn of the loop. -/
structure Hop (Url : Type) where
  dns : Resolver
  reply : Url → Reply

inductive FetchEvent (Url : Type) where
  | checked (url : Url) (dns : Resolver)
  | sent (url : Url)
  | followed (url : Url)

inductive FetchResult where
  | content (body : List UInt8) (contentType finalUrl : Text) (statusCode : Nat)
  | crossHostRedirect (originalHost redirectUrl : Text)

namespace UrlCrate

variable {Url : Type} (crate : UrlCrate Url)

def validateUrl (raw : Text) : Except WebFetchError Url :=
  if byteLen raw > maxUrlLength then .error (.urlTooLong maxUrlLength)
  else match crate.parse raw with
    | .error e => .error (.invalidUrl e)
    | .ok parsed =>
      if crate.scheme parsed ≠ "http".toList ∧ crate.scheme parsed ≠ "https".toList then
        .error (.unsupportedScheme (crate.scheme parsed))
      else if crate.username parsed ≠ [] ∨ (crate.password parsed).isSome then
        .error .credentialsInUrl
      else match crate.hostStr parsed with
        | none => .ok parsed
        | some host =>
          if (host.splitOn '.').length < 2 ∧ !isExplicitLocalHost host then
            .error (.singleLabelHost host)
          else .ok parsed

def upgradeToHttps (url : Url) : Url :=
  if crate.scheme url ≠ "http".toList then url
  else if (crate.hostStr url).any isExplicitLocalHost then url
  else (crate.setScheme url "https".toList).getD url

def isSameHost (a b : Url) : Bool := crate.hostStr a = crate.hostStr b

def checkSsrf (url : Url) (allowLocal : Bool) (dns : Resolver) : Except WebFetchError Unit :=
  match crate.hostStr url with
  | none => .error (.singleLabelHost [])
  | some host =>
    match parseIpAddr host with
    | some ip =>
      if isBlockedForHost ip host allowLocal then .error (.ssrfBlocked host ip) else .ok ()
    | none =>
      let port := (crate.portOrKnownDefault url).getD 443
      match dns (host ++ ':' :: decimal port) with
      | .error e => .error (.dnsResolution host e)
      | .ok addrs =>
        if addrs = [] then .error (.dnsEmpty host)
        else match addrs.find? (isBlockedForHost · host allowLocal) with
          | some ip => .error (.ssrfBlocked host ip)
          | none => .ok ()

def isRedirection (status : Nat) : Bool := 300 ≤ status ∧ status < 400

/-- What a redirect response asks for: nothing that the loop knows, a URL that
does not parse, another host, or the next turn. -/
inductive Redirect (Url : Type) where
  | missing
  | invalid (error : Text)
  | crossHost (url : Url)
  | follow (url : Url)

/-- The redirect of a response to a request of `current`. -/
def redirect (current : Url) (resp : Response) : Redirect Url :=
  match resp.location with
  | none => .missing
  | some location =>
    match crate.join current (location.getD []) with
    | .error e => .invalid e
    | .ok next =>
      if crate.isSameHost current next then .follow (crate.upgradeToHttps next)
      else .crossHost next

/-- The end of `fetch_url`. -/
def readContent (resp : Response) (maxContentLength : Nat) : Except WebFetchError FetchResult :=
  match resp.body with
  | .error e => .error (.httpRequest e)
  | .ok body =>
    if body.length > maxContentLength then .error (.responseTooLarge maxContentLength)
    else .ok (.content body (resp.contentType.getD "text/html".toList) resp.url resp.status)

/-- The loop of `fetch_url`, when it may still follow `left` redirects. -/
def fetchUrl (maxContentLength : Nat) (allowLocal : Bool) :
    (left : Nat) → Url → (Nat → Hop Url) →
      List (FetchEvent Url) × Except WebFetchError FetchResult
  | left, current, hops =>
    match crate.checkSsrf current allowLocal (hops 0).dns with
    | .error e => ([.checked current (hops 0).dns], .error e)
    | .ok () =>
      match (hops 0).reply current with
      | .refused e => ([.checked current (hops 0).dns], .error (.httpRequest e))
      | .failed e => ([.checked current (hops 0).dns, .sent current], .error (.httpRequest e))
      | .answered resp =>
        let requested : List (FetchEvent Url) := [.checked current (hops 0).dns, .sent current]
        if isRedirection resp.status then
          match left with
          | 0 => (requested, .error (.tooManyRedirects maxRedirects))
          | left + 1 =>
            match crate.redirect current resp with
            | .missing => (requested, readContent resp maxContentLength)
            | .invalid e => (requested, .error (.invalidRedirect e))
            | .crossHost next =>
              (requested, .ok (.crossHostRedirect
                ((crate.hostStr current).getD "unknown".toList) (crate.asStr next)))
            | .follow next =>
              let (events, result) :=
                fetchUrl maxContentLength allowLocal left next fun n => hops (n + 1)
              (requested ++ .followed next :: events, result)
        else (requested, readContent resp maxContentLength)

end UrlCrate

/-- The world of one fetch: the cache, the resolver at the first check, the
HTTP client and the turns of the loop. -/
structure World (Url Output : Type) where
  cache : Text → Option Output
  dns : Resolver
  client : Except Text Unit
  hops : Nat → Hop Url

/-- `max_content_length` and `allow_local`. -/
structure WebFetchParams where
  maxContentLength : Nat
  allowLocal : Bool

/-- `fetch`, up to the processing of the content: an answer of the cache, or
what the loop returns. -/
def fetch {Url Output : Type} (crate : UrlCrate Url) (params : WebFetchParams)
    (world : World Url Output) (rawUrl : Text) :
    List (FetchEvent Url) × Except WebFetchError (Output ⊕ FetchResult) :=
  match crate.validateUrl rawUrl with
  | .error e => ([], .error e)
  | .ok url =>
    let url := crate.upgradeToHttps url
    match world.cache (crate.asStr url) with
    | some cached => ([], .ok (.inl cached))
    | none =>
      match crate.checkSsrf url params.allowLocal world.dns with
      | .error e => ([.checked url world.dns], .error e)
      | .ok () =>
        match world.client with
        | .error e => ([.checked url world.dns], .error (.clientBuildError e))
        | .ok () =>
          let (events, result) := crate.fetchUrl params.maxContentLength params.allowLocal
            maxRedirects url world.hops
          (.checked url world.dns :: events, result.map .inr)

end GrokBuild.WebFetch
