import MutualKeyChallenge.App.Client
import MutualKeyChallenge.App.Tokens
import MutualKeyChallenge.Protocol.Freshness
import MutualKeyChallenge.Protocol.Identity
import MutualKeyChallenge.Protocol.NonceSecrecy
import MutualKeyChallenge.Protocol.PendingChallenge
import MutualKeyChallenge.Server.Atomicity
import MutualKeyChallenge.Server.BodyExtractor
import MutualKeyChallenge.Server.Footprint
import MutualKeyChallenge.Server.Forgery
import MutualKeyChallenge.Server.KeyRotation
import MutualKeyChallenge.Server.Oracle
import MutualKeyChallenge.Server.SharedCache
import MutualKeyChallenge.Session.Completion
import MutualKeyChallenge.Session.Honest
import MutualKeyChallenge.Session.Progress
import MutualKeyChallenge.Session.WireRealization
