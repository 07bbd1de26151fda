import IsaCloud.Support.Reconcile
import IsaCloud.Support.Text

/-!
# The routes of the gateway

The requests `sync_routes.sh` sends to the admin API, one function for each kind
of route. A request puts some texts into its JSON as they are; the API keeps the
route as it is meant exactly when these texts need no escape.
-/

namespace IsaCloud.Gateway

set_option autoImplicit false

open Support Support.Text

/-! ## Routes -/

structure Cors where
  origins : Str
  methods : Str
  headers : Str
  expose : Str
  maxAge : Nat
  /-- `allow_credential`, or `allow_credentials` in the OAuth routes. -/
  credentialKey : Str
  deriving DecidableEq

inductive Plugin where
  | cors (c : Cors)
  | limitCount (count : Str)
  | requestId
  | prometheus
  | jwtAuth
  | rewriteRegex (pattern replacement : Str)
  | rewriteUri (uri : Str)
  | apiBreaker (maxBreakerSec : Nat) (unhealthy : List Nat)
  | responseRewrite (cookieDomain : Str)
  deriving DecidableEq

structure Timeout where
  connect : Nat
  send : Nat
  read : Nat
  deriving DecidableEq

inductive Upstream where
  /-- `roundrobin` over what Consul discovers; `checks` and `keepalive_pool` are there or not. -/
  | consul (service : Str) (timeout : Timeout) (keepalive checks : Bool)
  | nodes (host port : Str) (timeout : Timeout)
  deriving DecidableEq

structure Route where
  name : Str
  uris : List Str
  /-- Empty for a route without `methods`. -/
  methods : List Str
  priority : Nat
  plugins : List Plugin
  upstream : Upstream
  deriving DecidableEq

/-- What the API holds under an id: a route as the script means it, or another one, of which the
script reads the name. -/
inductive Stored where
  | synced (r : Route)
  | other (name : Str)
  deriving DecidableEq

def Stored.name : Stored → Str
  | .synced r => r.name
  | .other name => name

/-- A PUT: the name in its URL, the route it means, the texts that go into the JSON as they are, and
the text `jq` is to read as the rate limit. -/
structure Request where
  name : Str
  route : Route
  raw : List Str
  rate : Option Str

/-- A code point that stands for itself in a JSON string. -/
def standsForItself (c : CodePoint) : Bool := decide (32 ≤ c.val) && c != cp '"' && c != cp '\\'

def Request.clean (isNumber : Str → Bool) (req : Request) : Bool :=
  (req.raw.all fun t => t.all standsForItself) && req.rate.all isNumber

def isRouteChar (c : CodePoint) : Bool :=
  isDigit c || decide (65 ≤ c.val ∧ c.val ≤ 90) || decide (97 ≤ c.val ∧ c.val ≤ 122) || c == cp '-' || c == cp '_'

/-- The admin API as `curl` and `jq` reach it: the id that a name in the URL addresses, and what is
kept of an accepted request. -/
structure Apisix where
  target : Str → Str
  target_plain : ∀ w, w.all isRouteChar = true → target w = w
  isNumber : Str → Bool
  isNumber_default : isNumber (lit "100") = true
  kept : Request → Stored
  kept_eq_iff : ∀ req, kept req = .synced req.route ↔ req.clean isNumber = true

/-! ## Settings -/

/-- The environment of the script; an unset variable is empty. -/
structure Settings where
  corsAllowedOrigins : Str
  cookieDomain : Str
  mateHost : Str
  frontendHost : Str
  consoleHost : Str
  docsHost : Str

/-- `${X:-d}`. -/
def orDefault (x d : Str) : Str := if x = [] then d else x

def localOrigins : Str :=
  lit "http://localhost:4100,http://localhost:4200,http://localhost:4300,http://localhost:3000"

def allowHeaders : Str :=
  lit "DNT,X-CustomHeader,Keep-Alive,User-Agent,X-Requested-With,If-Modified-Since,Cache-Control,Content-Type,Authorization,X-API-Key,X-Request-ID"

def allMethods : Str := lit "GET,POST,PUT,PATCH,DELETE,OPTIONS,HEAD"

def credential : Str := lit "allow_credential"

def Settings.origins (env : Settings) : Str := orDefault env.corsAllowedOrigins localOrigins

/-! ## Routes of a service -/

def routeSuffix : Str := lit "_route"
def healthSuffix : Str := lit "_health"
def mcpService : Str := lit "mcp_service"
def modelService : Str := lit "model_service"

def routeName (serviceName : Str) : Str := serviceName ++ routeSuffix

def healthRouteName (serviceName : Str) : Str := routeName (serviceName ++ healthSuffix)

def breaker (serviceName : Str) : List Plugin :=
  if serviceName = modelService then [.apiBreaker 15 [500, 502, 503, 504]]
  else if serviceName = mcpService then [.apiBreaker 30 [500, 502, 503]]
  else []

/-- `create_or_update_route`. The replacement of the rewrite holds the first argument of the
function, which the shell puts for `$1`. -/
def createOrUpdateRoute (env : Settings) (serviceName apiPath authRequired rateLimit : Str) : Request where
  name := routeName serviceName
  route :=
    { name := routeName serviceName
      uris := [apiPath, apiPath ++ lit "/*"]
      methods := []
      priority := 10
      plugins :=
        [.cors ⟨env.origins, allMethods, allowHeaders,
            lit "X-Request-ID,X-RateLimit-Limit,X-RateLimit-Remaining,X-RateLimit-Reset", 86400, credential⟩,
          .limitCount (orDefault rateLimit (lit "100")), .requestId, .prometheus] ++
        (if serviceName = mcpService then
          [.rewriteRegex (lit "^" ++ apiPath ++ lit "(/.*)\\$") (lit "\\" ++ serviceName)] else []) ++
        (if authRequired = lit "true" then [.jwtAuth] else []) ++ breaker serviceName
      upstream := .consul serviceName ⟨6, 6, 10⟩ true true }
  raw := [routeName serviceName, apiPath, serviceName]
  rate := some (orDefault rateLimit (lit "100"))

/-- `create_or_update_health_route`. -/
def createOrUpdateHealthRoute (env : Settings) (serviceName apiPath : Str) : Request where
  name := healthRouteName serviceName
  route :=
    { name := healthRouteName serviceName
      uris := [apiPath ++ lit "/health"]
      methods := []
      priority := 20
      plugins :=
        [.cors ⟨env.origins, lit "GET,OPTIONS,HEAD", allowHeaders, lit "X-Request-ID", 86400, credential⟩,
          .requestId, .prometheus, .rewriteRegex (lit "^" ++ apiPath ++ lit "/health$") (lit "/health")]
      upstream := .consul serviceName ⟨6, 6, 10⟩ false true }
  raw := [healthRouteName serviceName, apiPath, serviceName]
  rate := none

def mlflowBase : Str := lit "model_service_mlflow"

/-- `create_or_update_model_mlflow_route`. -/
def createOrUpdateModelMlflowRoute (env : Settings) : Request where
  name := routeName mlflowBase
  route :=
    { name := routeName mlflowBase
      uris := [lit "/api/v1/mlflow", lit "/api/v1/mlflow/*"]
      methods := []
      priority := 30
      plugins :=
        [.cors ⟨orDefault env.corsAllowedOrigins (localOrigins ++ lit ",http://localhost:5184"), allMethods,
            allowHeaders, lit "X-Request-ID", 86400, credential⟩,
          .requestId, .prometheus]
      upstream := .consul modelService ⟨6, 10, 60⟩ true false }
  raw := [routeName mlflowBase]
  rate := none

/-! ## Static routes -/

inductive Static where
  | mate
  | app
  | console
  | docs
  | loginCookie
  | refreshCookie
  | verifyCookie
  | protectedResource
  | authorizationServer
  deriving DecidableEq

/-- In the order `main` puts them. -/
def statics : List Static :=
  [.mate, .app, .console, .docs, .loginCookie, .refreshCookie, .verifyCookie, .protectedResource, .authorizationServer]

/-- The name without `_route`. -/
def Static.base : Static → Str
  | .mate => lit "mate_service"
  | .app => lit "frontend_app"
  | .console => lit "frontend_console"
  | .docs => lit "frontend_docs"
  | .loginCookie => lit "auth_service_login_cookie"
  | .refreshCookie => lit "auth_service_refresh_cookie"
  | .verifyCookie => lit "auth_service_verify_cookie"
  | .protectedResource => lit "oauth_protected_resource"
  | .authorizationServer => lit "oauth_authorization_server"

/-- `create_frontend_zone_route`. -/
def createFrontendZoneRoute (env : Settings) (name uriPath host port : Str) : Request where
  name := name
  route :=
    { name := name
      uris := if uriPath = lit "/" then [lit "/", lit "/*"] else [uriPath, uriPath ++ lit "/*"]
      methods := []
      priority := 5
      plugins :=
        [.cors ⟨env.origins, allMethods, allowHeaders, lit "X-Request-ID", 86400, credential⟩, .requestId, .prometheus]
      upstream := .nodes host port ⟨5, 30, 30⟩ }
  raw := [name, uriPath, env.origins, host, port]
  rate := none

/-- One of the routes of `create_auth_cookie_routes`. -/
def authCookieRoute (env : Settings) (name uri : Str) (limit : List Plugin) : Request where
  name := name
  route :=
    { name := name
      uris := [uri]
      methods := [lit "POST", lit "OPTIONS"]
      priority := 30
      plugins :=
        [.cors ⟨env.origins, lit "POST,OPTIONS", allowHeaders, lit "X-Request-ID,Set-Cookie", 86400, credential⟩,
          .requestId] ++ limit ++ [.responseRewrite (orDefault env.cookieDomain (lit "localhost")), .prometheus]
      upstream := .consul (lit "auth_service") ⟨6, 6, 10⟩ false false }
  raw := []
  rate := none

/-- One of the routes of `create_oauth_wellknown_routes`, with its own default origins. -/
def oauthRoute (env : Settings) (name uri service : Str) : Request where
  name := name
  route :=
    { name := name
      uris := [uri]
      methods := [lit "GET", lit "OPTIONS"]
      priority := 20
      plugins :=
        [.cors ⟨orDefault env.corsAllowedOrigins
              (lit "http://localhost:3000,http://localhost:8080,http://127.0.0.1:3000"),
            lit "GET,OPTIONS", allowHeaders, lit "X-Request-ID", 86400, lit "allow_credentials"⟩,
          .requestId, .rewriteUri uri, .prometheus]
      upstream := .consul service ⟨6, 6, 10⟩ false false }
  raw := []
  rate := none

def defaultHost : Str := lit "host.docker.internal"

def Static.request (env : Settings) (s : Static) : Request :=
  let name := routeName s.base
  match s with
  | .mate => createFrontendZoneRoute env name (lit "/mate") (orDefault env.mateHost defaultHost) (lit "18789")
  | .app => createFrontendZoneRoute env name (lit "/") (orDefault env.frontendHost defaultHost) (lit "4100")
  | .console => createFrontendZoneRoute env name (lit "/console") (orDefault env.consoleHost defaultHost) (lit "4200")
  | .docs => createFrontendZoneRoute env name (lit "/docs") (orDefault env.docsHost defaultHost) (lit "4300")
  | .loginCookie => authCookieRoute env name (lit "/api/v1/auth/login") [.limitCount (lit "20")]
  | .refreshCookie => authCookieRoute env name (lit "/api/v1/auth/refresh") []
  | .verifyCookie => authCookieRoute env name (lit "/api/v1/auth/verify") []
  | .protectedResource => oauthRoute env name (lit "/.well-known/oauth-protected-resource") mcpService
  | .authorizationServer => oauthRoute env name (lit "/.well-known/oauth-authorization-server") (lit "auth_service")

theorem Static.request_name (env : Settings) (s : Static) : (s.request env).name = routeName s.base := by
  cases s <;> rfl

end IsaCloud.Gateway
