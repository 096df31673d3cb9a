import Gabriel.Lib.Text

/-!
# `Gabriel.Lib.Http`: tokens and reason phrases

The tokens of HTTP, which methods and header names are, and the reason phrases of the registered
status codes.

The definitions:

* `isTokenChar`, `IsToken`: the tokens.
* `reasonPhrases`: the reason phrases, by status code.
-/

set_option autoImplicit false

namespace Http

open Text

/-- A character of a token. -/
def isTokenChar (c : Char) : Bool :=
  c.isAlphanum || c ∈ "!#$%&'*+-.^_|~".toList || c = Char.ofNat 96

/-- A token. -/
def IsToken (t : Text) : Prop := t ≠ [] ∧ ∀ c ∈ t, isTokenChar c = true

instance (t : Text) : Decidable (IsToken t) :=
  letI : Decidable (∀ c ∈ t, isTokenChar c = true) := List.decidableBAll _ t
  inferInstanceAs (Decidable (_ ∧ _))

/-- The reason phrases of the registered status codes. -/
def reasonPhrases : List Text :=
  ["Continue".toList, "Switching Protocols".toList, "Processing".toList, "Early Hints".toList,
    "OK".toList, "Created".toList, "Accepted".toList, "Non Authoritative Information".toList,
    "No Content".toList, "Reset Content".toList, "Partial Content".toList,
    "Multi-Status".toList, "Already Reported".toList, "IM Used".toList,
    "Multiple Choices".toList, "Moved Permanently".toList, "Found".toList, "See Other".toList,
    "Not Modified".toList, "Use Proxy".toList, "Temporary Redirect".toList,
    "Permanent Redirect".toList, "Bad Request".toList, "Unauthorized".toList,
    "Payment Required".toList, "Forbidden".toList, "Not Found".toList,
    "Method Not Allowed".toList, "Not Acceptable".toList,
    "Proxy Authentication Required".toList, "Request Timeout".toList, "Conflict".toList,
    "Gone".toList, "Length Required".toList, "Precondition Failed".toList,
    "Payload Too Large".toList, "URI Too Long".toList, "Unsupported Media Type".toList,
    "Range Not Satisfiable".toList, "Expectation Failed".toList, "I'm a teapot".toList,
    "Misdirected Request".toList, "Unprocessable Entity".toList, "Locked".toList,
    "Failed Dependency".toList, "Too Early".toList, "Upgrade Required".toList,
    "Precondition Required".toList, "Too Many Requests".toList,
    "Request Header Fields Too Large".toList, "Unavailable For Legal Reasons".toList,
    "Internal Server Error".toList, "Not Implemented".toList, "Bad Gateway".toList,
    "Service Unavailable".toList, "Gateway Timeout".toList,
    "HTTP Version Not Supported".toList, "Variant Also Negotiates".toList,
    "Insufficient Storage".toList, "Loop Detected".toList, "Not Extended".toList,
    "Network Authentication Required".toList]

end Http
