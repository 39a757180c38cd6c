import FCord.Data.JsonRoundTrip

/-!
# The API client

Every request of the application goes through `apiRequest` or `apiUpload`: they read the access
token, hand a `Fetch` to the network, and make a value or an error of the response.
-/

namespace FCord

/-- What `FormData` holds under one name. -/
inductive FormPart where
  | text (value : String)
  | file (uri name type : String)
  deriving DecidableEq, Repr

/-- The body of a request. -/
inductive Body where
  | empty
  | text (s : String)
  | form (parts : List (String × FormPart))
  deriving DecidableEq, Repr

/-- The arguments of `fetch`. -/
structure Fetch where
  url : String
  method : String
  headers : List (String × String)
  credentials : String
  body : Body
  deriving DecidableEq, Repr

/-- The value of a header. -/
def Fetch.header (f : Fetch) (name : String) : Option String :=
  (f.headers.find? fun h => h.1 = name).map Prod.snd

/-- The headers that carry the token; an empty token is no token. -/
def tokenHeaders : Option String → List (String × String)
  | some token => if token = "" then [] else [("token", token), ("Cookie", "sessionid=" ++ token)]
  | none => []

/-- `JSON.stringify(body)`, if there is a body. -/
def jsonBody : Option Json → Body
  | some .null => .empty
  | some body => .text body.stringify
  | none => .empty

/-- What a screen or the upload service asks for. -/
inductive ApiCall where
  /-- `apiRequest` -/
  | request (method path : String) (body : Option Json)
  /-- `apiUpload` -/
  | upload (path : String) (formData : List (String × FormPart))

/-- The request that goes out once the token has been read. -/
def ApiCall.fetch (baseUrl : String) (token : Option String) : ApiCall → Fetch
  | .request method path body =>
    { url := baseUrl ++ path
      method := method
      headers := ("Content-Type", "application/json") :: tokenHeaders token
      credentials := "include"
      body := jsonBody body }
  | .upload path formData =>
    { url := baseUrl ++ path
      method := "POST"
      headers := tokenHeaders token
      credentials := "include"
      body := .form formData }

/-- The request is sent in the name of the owner of the token. -/
def Fetch.Signed (f : Fetch) (token : String) : Prop :=
  f.header "token" = some token ∧ f.header "Cookie" = some ("sessionid=" ++ token)

/-- The request is sent in nobody's name. -/
def Fetch.Unsigned (f : Fetch) : Prop := f.header "token" = none ∧ f.header "Cookie" = none

/-- A request is signed with the token that was read, if that is one. -/
theorem ApiCall.signed (call : ApiCall) (baseUrl : String) {token : String} (h : token ≠ "") :
    (call.fetch baseUrl (some token)).Signed token := by
  cases call <;> simp [Fetch.Signed, Fetch.header, ApiCall.fetch, tokenHeaders, h]

theorem ApiCall.unsigned (call : ApiCall) (baseUrl : String) {token : Option String}
    (h : token = none ∨ token = some "") : (call.fetch baseUrl token).Unsigned := by
  rcases h with rfl | rfl <;> cases call <;>
    simp [Fetch.Unsigned, Fetch.header, ApiCall.fetch, tokenHeaders]

end FCord
