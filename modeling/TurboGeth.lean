import TurboGeth.Lib.PathMap
import TurboGeth.Lib.ExceptRun
import TurboGeth.Lib.Simulation
import TurboGeth.Lib.Rlp
import TurboGeth.Lib.MerklePatricia
import TurboGeth.Lib.HexText
import TurboGeth.Trie.Encoding
import TurboGeth.Trie.Node
import TurboGeth.Trie.Insert
import TurboGeth.Trie.Delete
import TurboGeth.Trie.Get
import TurboGeth.Trie.Trie
import TurboGeth.Trie.Canonical
import TurboGeth.Trie.InsertSpec
import TurboGeth.Trie.DeleteSpec
import TurboGeth.Trie.GetSpec
import TurboGeth.Trie.MapSemantics
import TurboGeth.Trie.Fresh
import TurboGeth.Trie.HashCache
import TurboGeth.Trie.ContentHash
import TurboGeth.Trie.CachedRuns
import TurboGeth.Trie.PrintLoad
import TurboGeth.Trie.SecureTrie
import TurboGeth.Trie.Hasher
import TurboGeth.Trie.HashBuffer
import TurboGeth.Trie.HashEncoding
import TurboGeth.Trie.RootHash
import TurboGeth.State.TrieDbState
import TurboGeth.State.Flush
import TurboGeth.State.Generations
import TurboGeth.State.ManagedState
import TurboGeth.Ethdb.Database
import TurboGeth.Ethdb.Overlay
import TurboGeth.Core.StateTransition
import TurboGeth.Core.StateProcessor
import TurboGeth.Core.DeriveSha
import TurboGeth.Clique.Seal
import TurboGeth.Clique.Voting
import TurboGeth.Vm.InstructionsSpec
import TurboGeth.Rlp.Raw
import TurboGeth.Ethdb.History
import TurboGeth.Trie.Proof
import TurboGeth.Rlp.Typed
import TurboGeth.State.AccountEncoding
import TurboGeth.Ethdb.Walk
import TurboGeth.Trie.Unload
import TurboGeth.Trie.Resolver
import TurboGeth.Trie.ResolverSpec
import TurboGeth.Ethdb.Encoding8to7
import TurboGeth.Vm.GasTable
import TurboGeth.Vm.Analysis
import TurboGeth.Core.Bloombits
import TurboGeth.Rlp.Integers
import TurboGeth.Bitutil.Compress
