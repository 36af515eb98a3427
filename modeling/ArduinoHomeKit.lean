import ArduinoHomeKit.Library.Runs
import ArduinoHomeKit.Library.Nor
import ArduinoHomeKit.Library.CString
import ArduinoHomeKit.Library.SlotStore
import ArduinoHomeKit.Library.SlotMap
import ArduinoHomeKit.Library.Growth
import ArduinoHomeKit.Library.Labelled
import ArduinoHomeKit.Library.Pieces
import ArduinoHomeKit.Library.Fragments
import ArduinoHomeKit.Library.Links
import ArduinoHomeKit.Library.Recent
import ArduinoHomeKit.Library.Json
import ArduinoHomeKit.Library.Chunked
import ArduinoHomeKit.Crypto
import ArduinoHomeKit.Tlv
import ArduinoHomeKit.TlvParser
import ArduinoHomeKit.TlvCodec
import ArduinoHomeKit.Storage
import ArduinoHomeKit.StoreRecords
import ArduinoHomeKit.StoreOperations
import ArduinoHomeKit.Server
import ArduinoHomeKit.PairSetup
import ArduinoHomeKit.PairVerify
import ArduinoHomeKit.Pairings
import ArduinoHomeKit.ClientProcess
import ArduinoHomeKit.ServerLoop
import ArduinoHomeKit.Machine
import ArduinoHomeKit.Requests
import ArduinoHomeKit.Sends
import ArduinoHomeKit.Quiet
import ArduinoHomeKit.Effects
import ArduinoHomeKit.Messages
import ArduinoHomeKit.Steps
import ArduinoHomeKit.Invariants
import ArduinoHomeKit.News
import ArduinoHomeKit.Sessions
import ArduinoHomeKit.Bench
import ArduinoHomeKit.PairedFlag
import ArduinoHomeKit.UniqueIds
import ArduinoHomeKit.SessionSlots
import ArduinoHomeKit.SessionPermissions
import ArduinoHomeKit.PairingErrors
import ArduinoHomeKit.SetupProof
import ArduinoHomeKit.SetupIdentifier
import ArduinoHomeKit.Signatures
import ArduinoHomeKit.Streams
import ArduinoHomeKit.Refinement
import ArduinoHomeKit.Revocation
import ArduinoHomeKit.Frames
import ArduinoHomeKit.Provenance
import ArduinoHomeKit.Decoding
import ArduinoHomeKit.StoreMap
import ArduinoHomeKit.Compaction
import ArduinoHomeKit.UpdateSlots
import ArduinoHomeKit.UserData
import ArduinoHomeKit.Capacity
import ArduinoHomeKit.Boot
import ArduinoHomeKit.PowerLoss
import ArduinoHomeKit.Updates
import ArduinoHomeKit.PairingContexts
import ArduinoHomeKit.ContextOwner
import ArduinoHomeKit.ContextLife
import ArduinoHomeKit.ClientTable
import ArduinoHomeKit.ClientWalk
import ArduinoHomeKit.SetupRetry
import ArduinoHomeKit.Handshake
import ArduinoHomeKit.Nonces
import ArduinoHomeKit.SendFrames
import ArduinoHomeKit.EventQueue
import ArduinoHomeKit.Accessories
import ArduinoHomeKit.ValueCopies
import ArduinoHomeKit.JsonStream
import ArduinoHomeKit.Base64
import ArduinoHomeKit.CJson
import ArduinoHomeKit.CharacteristicJson
import ArduinoHomeKit.AccessoryBench
import ArduinoHomeKit.AccessoryDocument
import ArduinoHomeKit.Numerals
import ArduinoHomeKit.FrameBatches
import ArduinoHomeKit.Routes
import ArduinoHomeKit.JsonBuffer
import ArduinoHomeKit.CharacteristicUpdate
import ArduinoHomeKit.Base64Codec
import ArduinoHomeKit.ItemUpdates
import ArduinoHomeKit.NumberUpdates
import ArduinoHomeKit.QueryParams
import ArduinoHomeKit.QueryStrings
import ArduinoHomeKit.Handlers
import ArduinoHomeKit.MultiStatus
import ArduinoHomeKit.StatusReports
import ArduinoHomeKit.Library.HttpMessage
import ArduinoHomeKit.Library.JsonText
import ArduinoHomeKit.AccessoryServer
import ArduinoHomeKit.EventMessages
import ArduinoHomeKit.AccessoryOperations
import ArduinoHomeKit.Subscribers
import ArduinoHomeKit.WriteEvents
import ArduinoHomeKit.Library.JsonQuotes
import ArduinoHomeKit.ReadBack
import ArduinoHomeKit.EventValues
import ArduinoHomeKit.ResponseWrites
import ArduinoHomeKit.Responses
import ArduinoHomeKit.RequestAnswers
import ArduinoHomeKit.OneResponse
import ArduinoHomeKit.ValueEquality
import ArduinoHomeKit.SetupUri
import ArduinoHomeKit.CallbackLists
import ArduinoHomeKit.Library.JsonPosition
import ArduinoHomeKit.JsonDocuments
import ArduinoHomeKit.AccessoryNumbers
import ArduinoHomeKit.CloneOutput
import ArduinoHomeKit.HttpMachine
import ArduinoHomeKit.Library.Transducer
import ArduinoHomeKit.HttpSteps
import ArduinoHomeKit.HttpBytes
import ArduinoHomeKit.HttpCalls
import ArduinoHomeKit.HttpSegments
import ArduinoHomeKit.HttpMessages
import ArduinoHomeKit.HttpBudget
import ArduinoHomeKit.HttpHeaders
import ArduinoHomeKit.HttpRequests
import ArduinoHomeKit.HttpFraming
