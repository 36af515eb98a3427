import ArduinoHomeKit.CharacteristicJson
import ArduinoHomeKit.CharacteristicUpdate
import ArduinoHomeKit.JsonBuffer
import ArduinoHomeKit.QueryParams

/-! The handlers of a session's requests: what they answer, and the payloads of the answers. -/

namespace ArduinoHomeKit

variable {υ : Type}

/-- What a handler answers a request with. -/
inductive Answer
  | error (statusCode : Nat) (status : HAPStatus)
  | noContent
  | notFound
  | document (multiStatus : Bool) (calls : List JsonCall)
  | user (payloads : List Bytes)

/-! The payloads. -/

def integerText (n : Int) : Bytes := ascii (toString n)

def statusText : Nat → Bytes
  | 204 => ascii "No Content"
  | 207 => ascii "Multi-Status"
  | 400 => ascii "Bad Request"
  | 404 => ascii "Not Found"
  | 422 => ascii "Unprocessable Entity"
  | 500 => ascii "Internal Server Error"
  | 503 => ascii "Service Unavailable"
  | _ => ascii "OK"

/-- What send_json_response passes to client_send. -/
def jsonResponse (statusCode : Nat) (payload : Bytes) : Bytes :=
  ascii "HTTP/1.1 " ++ decimal statusCode ++ ascii " " ++ statusText statusCode ++
    ascii "\r\nContent-Type: application/hap+json\r\nContent-Length: " ++ decimal payload.length ++
    ascii "\r\nConnection: keep-alive\r\n\r\n" ++ payload

/-- The buffer of send_json_error_response has 32 bytes, and every status fits. -/
def jsonErrorResponse (statusCode : Nat) (status : HAPStatus) : Bytes :=
  jsonResponse statusCode (ascii "\x7b\"status\": " ++ integerText status.code ++ ascii "\x7d")

def json200ResponseHeaders : Bytes :=
  ascii "HTTP/1.1 200 OK\r\nContent-Type: application/hap+json\r\nTransfer-Encoding: chunked\r\nConnection: keep-alive\r\n\r\n"

def json207ResponseHeaders : Bytes :=
  ascii "HTTP/1.1 207 Multi-Status\r\nContent-Type: application/hap+json\r\nTransfer-Encoding: chunked\r\nConnection: keep-alive\r\n\r\n"

def eventHeaders : Bytes :=
  ascii "EVENT/1.0 200 OK\r\nContent-Type: application/hap+json\r\nTransfer-Encoding: chunked\r\n\r\n"

/-- Headers, and a body that is written through the buffer. -/
def chunkedPayloads (headers : Bytes) (calls : List JsonCall) : Except Fault (List Bytes) :=
  (chunkedBody homekitJsonBufferSize calls).map (fun chunks => headers :: chunks)

/-- The payloads that an answer passes to client_send. -/
def Answer.payloads : Answer → Except Fault (List Bytes)
  | error statusCode status => .ok [jsonErrorResponse statusCode status]
  | noContent => .ok [ascii "HTTP/1.1 204 No Content\r\n\r\n"]
  | notFound => .ok [ascii "HTTP/1.1 404 Not Found\r\n\r\n"]
  | document multiStatus calls =>
    chunkedPayloads (if multiStatus then json207ResponseHeaders else json200ResponseHeaders) calls
  | user payloads => .ok payloads

/-! GET. -/

def homekitServerOnGetAccessories (sketch : Sketch υ) (rt : Runtime) (c : ClientId) (s : AccessoryState υ) :
    Except Fault (AccessoryState υ × Answer) :=
  (getAccessoriesCalls sketch rt c s).map (fun r => (r.1, .document false r.2))

/-- json_string(json, "status") with its value; json_uint8 takes the low byte of the status. -/
def statusCalls (status : HAPStatus) : List JsonCall :=
  [key "status", jsonUint8 (UInt8.ofNat (status.code % 256).toNat)]

def writeCharacteristicError (aid iid : UInt32) (status : HAPStatus) : List JsonCall :=
  .objectStart :: ([key "aid", jsonUint32 aid, key "iid", jsonUint32 iid] ++ statusCalls status ++ [.objectEnd])

/-- The ids in a component, when it has a dot. -/
def componentIds (text : Bytes) : Option (UInt32 × UInt32) :=
  (splitDot text).map (fun p => (asUint32 (atoi p.1), asUint32 (atoi p.2)))

/-- What a component asks for, in the order of the checks. -/
inductive Requested
  | missing
  | unreadable (ch : CharacteristicId)
  | readable (ch : CharacteristicId)

def requested? (db : Database) (aid iid : UInt32) : Requested :=
  match homekitCharacteristicByAidAndIid db aid iid with
  | none => .missing
  | some ch =>
    if hasFlag (db.characteristic ch).permissions Permissions.pairedRead = false then .unreadable ch else .readable ch

/-- The first pass over a component; `none` when it has no dot. -/
def componentSucceeds (db : Database) (text : Bytes) : Option Bool :=
  (componentIds text).map (fun ids => match requested? db ids.1 ids.2 with
    | .readable _ => true
    | _ => false)

/-- The loop of the first pass: whether all components succeed, unless one has no dot. -/
def firstPass (db : Database) : List Bytes → Option Bool
  | [] => some true
  | text :: texts =>
    match componentSucceeds db text with
    | none => none
    | some success => (firstPass db texts).map (fun rest => success && rest)

/-- The second pass over a component. -/
def componentCalls (sketch : Sketch υ) (rt : Runtime) (c : ClientId) (format : Nat) (success : Bool) (text : Bytes)
    (s : AccessoryState υ) : Except Fault (AccessoryState υ × List JsonCall) :=
  match componentIds text with
  | none => .error .nullDereference
  | some (aid, iid) =>
    match requested? s.database aid iid with
    | .missing => .ok (s, writeCharacteristicError aid iid .noResource)
    | .unreadable _ => .ok (s, writeCharacteristicError aid iid .writeOnly)
    | .readable ch =>
      inObject ((writeCharacteristicJson sketch rt c format ch none s).map
        (fun r => (r.1, r.2 ++ if success then [] else statusCalls .success)))

/-- The details that the parameters ask for. -/
def requestedFormat (params : List QueryParam) : Nat :=
  (if boolEndpointParam "meta" params then CharacteristicFormat.metadata else 0) |||
  (if boolEndpointParam "perms" params then CharacteristicFormat.perms else 0) |||
  (if boolEndpointParam "type" params then CharacteristicFormat.type else 0) |||
  (if boolEndpointParam "ev" params then CharacteristicFormat.events else 0)

def homekitServerOnGetCharacteristics (sketch : Sketch υ) (rt : Runtime) (c : ClientId) (params : List QueryParam)
    (s : AccessoryState υ) : Except Fault (AccessoryState υ × Answer) :=
  match queryParamsFind params "id" with
  | none => .ok (s, .error 400 .invalidValue)
  | some param =>
    match param.value with
    -- strdup of the absent value
    | none => .error .nullDereference
    | some value =>
      let components := strsep 44 (CString.strdup value)
      match firstPass s.database components with
      | none => .ok (s, .error 400 .invalidValue)
      | some success =>
        (inObject (withArray [key "characteristics"]
            (loopCalls (componentCalls sketch rt c (requestedFormat params) success) components s))).map
          (fun r => (r.1, .document (!success) r.2))

/-! PUT. -/

/-- The loop over the items. -/
def updateItems (sketch : Sketch υ) (rt : Runtime) (c : ClientId) :
    List CJson → AccessoryState υ → Except Fault (AccessoryState υ × List HAPStatus)
  | [], s => .ok (s, [])
  | j :: items, s =>
    match processCharacteristicsUpdate sketch rt c j s with
    | .error e => .error e
    | .ok (s, status) => (updateItems sketch rt c items s).map (fun r => (r.1, status :: r.2))

/-- An entry of the 207 body; the fields of the item are read without a check. -/
def itemStatusCalls (rt : Runtime) (j : CJson) (status : HAPStatus) : Except Fault (List JsonCall) :=
  match j.getObjectItem (ascii "aid"), j.getObjectItem (ascii "iid") with
  | some aid, some iid =>
    .ok (.objectStart :: ([key "aid", jsonUint32 (UInt32.ofNat (toUnsigned rt 32 aid.valuedouble)),
      key "iid", jsonUint32 (UInt32.ofNat (toUnsigned rt 32 iid.valuedouble))] ++ statusCalls status ++ [.objectEnd]))
  | _, _ => .error .nullDereference

def statusesCalls (rt : Runtime) : List CJson → List HAPStatus → Except Fault (List JsonCall)
  | j :: items, status :: statuses =>
    match itemStatusCalls rt j status with
    | .error e => .error e
    | .ok calls => (statusesCalls rt items statuses).map (fun rest => calls ++ rest)
  | _, _ => .ok []

/-- The answer once all items are processed. -/
def updateAnswer (rt : Runtime) (items : List CJson) (statuses : List HAPStatus) : Except Fault Answer :=
  if statuses.all (fun status => status == .success) then .ok .noContent
  else
    (statusesCalls rt items statuses).map (fun calls => .document true
      (.objectStart :: key "characteristics" :: .arrayStart :: (calls ++ [.arrayEnd, .objectEnd])))

/-- The items of the request, `none` when it is answered with an error. -/
def updateRequestItems (rt : Runtime) (data : Bytes) : Option (List CJson) :=
  match rt.cJSONParse (CString.strndup data data.length) with
  | none => none
  | some json =>
    match json.getObjectItem (ascii "characteristics") with
    | some (.array items) => some items
    | _ => none

def homekitServerOnUpdateCharacteristics (sketch : Sketch υ) (rt : Runtime) (c : ClientId) (data : Bytes)
    (s : AccessoryState υ) : Except Fault (AccessoryState υ × Answer) :=
  match updateRequestItems rt data with
  | none => .ok (s, .error 400 .invalidValue)
  | some items =>
    match updateItems sketch rt c items s with
    | .error e => .error e
    | .ok (s, statuses) =>
      -- cJSON_Delete comes last, whatever still points into the request
      (updateAnswer rt items statuses).map (fun answer =>
        (s.mapValues (HomekitValue.freeString (rt.freedString s.now)), answer))

/-! The other requests. -/

def homekitAccessoryById (db : Database) (aid : UInt32) : Option AccessoryId :=
  db.accessories.find? (fun a => (db.accessory a).id == aid)

def homekitServiceByType (db : Database) (a : AccessoryId) (type : Bytes) : Option ServiceId :=
  (db.accessory a).services.find? (fun i => CString.strdup (db.service i).type == type)

def homekitServiceCharacteristicByType (db : Database) (i : ServiceId) (type : Bytes) : Option CharacteristicId :=
  (db.service i).characteristics.find? (fun ch => CString.strdup (db.characteristic ch).type == type)

/-- The Identify characteristic of the Accessory Information service of accessory 1. -/
def identifyCharacteristic (db : Database) : Option CharacteristicId :=
  ((homekitAccessoryById db 1).bind (fun a => homekitServiceByType db a (ascii "3E"))).bind
    (fun i => homekitServiceCharacteristicByType db i (ascii "14"))

/-- The setter of the Identify characteristic is called after the response was sent. -/
def identify (sketch : Sketch υ) (rt : Runtime) (s : AccessoryState υ) : Except Fault (AccessoryState υ) :=
  match identifyCharacteristic s.database with
  | none => .ok s
  | some ch =>
    match (s.database.characteristic ch).setterEx with
    | none => .ok s
    | some g =>
      callSetter sketch g ch (cppValue (rt.stack s.now) .bool (overlay (rt.stack s.now) 8 1)) { s with now := s.now + 1 }

def homekitServerOnIdentify (sketch : Sketch υ) (rt : Runtime) (paired : Bool) (s : AccessoryState υ) :
    Except Fault (AccessoryState υ × Answer) :=
  if paired then .ok (s, .error 400 .insufficientPrivileges)
  else (identify sketch rt s).map (fun s => (s, .noContent))

def homekitServerOnResource (sketch : Sketch υ) (data : Bytes) (s : AccessoryState υ) :
    AccessoryState υ × Answer :=
  match sketch.onResource with
  | none => (s, .notFound)
  | some f => ({ s with user := (f data s.user).1 }, .user (f data s.user).2)

/-! The events. -/

/-- Frees the values of events. -/
def destructEvents : List CharacteristicEvent → Except Fault Unit
  | [] => .ok ()
  | event :: events =>
    match homekitValueDestruct event.value with
    | .error e => .error e
    | .ok () => destructEvents events

/-- homekit_server_process_notifications on the queue of a client: each popped value is copied
into the list of events, over the one that its characteristic has there, and freed. -/
def collectEvents : List CharacteristicEvent → List CharacteristicEvent → Except Fault (List CharacteristicEvent)
  | [], events => .ok events
  | event :: popped, events =>
    match destructEvents (events.find? (fun e => e.characteristic = event.characteristic)).toList with
    | .error e => .error e
    | .ok () =>
      match homekitValueCopy event.value with
      | .error e => .error e
      | .ok copy =>
        match homekitValueDestruct event.value with
        | .error e => .error e
        | .ok () =>
          collectEvents popped
            (Recent.put CharacteristicEvent.characteristic events { event with value := copy })

/-- The calls that send_client_events makes on the stream. -/
def clientEventsCalls (sketch : Sketch υ) (rt : Runtime) (c : ClientId) (events : List CharacteristicEvent)
    (s : AccessoryState υ) : Except Fault (AccessoryState υ × List JsonCall) :=
  inObject (withArray [key "characteristics"]
    (loopCalls (fun e s => inObject (writeCharacteristicJson sketch rt c 0 e.characteristic (some e.value) s)) events s))

/-- The payloads of the notification of a client, none when its queue is empty. -/
def clientEvents (sketch : Sketch υ) (rt : Runtime) (c : ClientId) (s : AccessoryState υ) :
    Except Fault (AccessoryState υ × List Bytes) :=
  let r := qDrain (s.eventQueue c).cnt (s.eventQueue c)
  if r.1 = [] then .ok (s, [])
  else
    match collectEvents r.1 [] with
    | .error e => .error e
    | .ok events =>
      match clientEventsCalls sketch rt c events { s with eventQueue := Function.update s.eventQueue c r.2 } with
      | .error e => .error e
      | .ok (s, calls) =>
        match chunkedPayloads eventHeaders calls with
        | .error e => .error e
        | .ok payloads => (destructEvents events).map (fun _ => (s, payloads))

end ArduinoHomeKit
