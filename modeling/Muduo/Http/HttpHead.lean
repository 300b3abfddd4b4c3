set_option autoImplicit false

/-! # HTTP methods, versions and status codes (`include/net/http/HttpHead.h`) -/

namespace Http

inductive Method
  | unknown | GET | HEAD | POST | PUT | DELETE
deriving DecidableEq

inductive Version
  | unknown | http10 | http11 | http20
deriving DecidableEq

inductive StateCode
  | unknown
  | ok | noContent | partialContent
  | movedPermanently | found | seeOther | notModified | temporaryRedirect
  | badRequest | unauthorized | forbidden | notFound
  | internalServerError | notImplemented | serviceUnavailable
deriving DecidableEq

/-- The value of the enumerator. -/
def StateCode.toInt : StateCode → Int
  | .unknown => 0
  | .ok => 200
  | .noContent => 204
  | .partialContent => 206
  | .movedPermanently => 301
  | .found => 302
  | .seeOther => 303
  | .notModified => 304
  | .temporaryRedirect => 307
  | .badRequest => 400
  | .unauthorized => 401
  | .forbidden => 403
  | .notFound => 404
  | .internalServerError => 500
  | .notImplemented => 501
  | .serviceUnavailable => 503

end Http
